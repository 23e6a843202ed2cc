import ElfBoot.Firmware.Model
import ElfBoot.Proofs.Load.Statuses

/-!
# Statuses of the firmware

A status with which the firmware refuses a file is carried through a load, or through the reading
of a whole file, and is in the end the status that the caller gets.

* `FailsWith`, `Run.FailsWith` — an error with a given status.
* `Spellable`, `Services.SpellsUcs2` — which texts can be spelled in 16-bit characters.
* `Services.Consistent` — a firmware that never refuses with the status of a success.
* `Boot.Opens`, `Boot.opens_openFile` — all the ways in which opening a file turns out.
* `Boot.Refuses`, `Boot.Refuses.stops` — a call that the firmware refuses is the last one of a run.
* `Boot.ReadStops`, `Boot.readFile_stops` — the same for the reading of a whole file, with the
  search for its size.
* `Boot.status_ne_success_of_load` — a load never fails with the status of a success.
* `Boot.keepsStatuses` — the statuses of all these errors.
-/

set_option autoImplicit false

namespace ElfBoot

/-- A result is an error with this status. -/
def FailsWith {β : Type} (s : Status) (result : Except LoadError β) : Prop :=
  ∃ e, result = .error e ∧ e.status = s

/-- A run ends with an error that has this status. -/
def Run.FailsWith {σ β : Type} (r : Run σ (Except LoadError β)) (s : Status) : Prop :=
  ∃ e, r.outcome = .done (.error e) ∧ e.status = s

namespace Firmware

/-! ## Names -/

/-- A character is not zero and takes no more than 16 bits. -/
def Fits (c : Char) : Prop := c.toNat ≠ 0 ∧ c.toNat ≤ 0xFFFF

instance : DecidablePred Fits := fun c =>
  inferInstanceAs (Decidable (c.toNat ≠ 0 ∧ c.toNat ≤ 0xFFFF))

/-- All characters of a text fit. -/
def Spellable (text : String) : Prop := ∀ c ∈ text.toList, Fits c

instance : DecidablePred Spellable := fun text => List.decidableBAll Fits text.toList

theorem fits_separator_iff (c : Char) : Fits (separator c) ↔ Fits c := by
  unfold separator
  by_cases hslash : c = '/'
  · subst hslash
    decide
  · rw [if_neg hslash]

/-- Replacing the separators of a path does not change whether its characters fit. -/
theorem spellable_backslashed_iff (path : String) :
    Spellable (backslashed path) ↔ Spellable path := by
  unfold Spellable backslashed
  rw [String.toList_ofList]
  simp only [List.forall_mem_map, fits_separator_iff]

theorem nameOf_of_some {spell : String → Option (List UInt16)} {path : String} {name : List UInt16}
    (h : spell (backslashed path) = some name) : nameOf spell path = .ok name := by
  rw [nameOf, h]

theorem nameOf_of_none {spell : String → Option (List UInt16)} {path : String}
    (h : spell (backslashed path) = none) :
    nameOf spell path = .error (.io (.openFailed .invalidParameter)) := by
  rw [nameOf, h]

variable {ν φ α : Type}

/-- The texts that cannot be spelled in 16-bit characters are those with a character that does not
fit. -/
def Services.SpellsUcs2 (fw : Services ν φ α) : Prop :=
  ∀ text, fw.spell text = none ↔ ¬ Spellable text

/-- The firmware does not refuse to open a name, to tell its type or to read with the status of a
success. -/
structure Services.Consistent (fw : Services ν φ α) : Prop where
  openName : ∀ {name : List UInt16} {v v' : ν} {s : Status},
    fw.openName name v = (.error s, v') → s ≠ .success
  intoType : ∀ {f : φ} {s : Status}, fw.intoType f = .error s → s ≠ .success
  readFile : ∀ {n : Nat} {f f' : φ} {s : Status}, fw.readFile n f = (.error s, f') → s ≠ .success

namespace Boot

/-! ## Opening a file -/

theorem status_openError (s : Status) : (openError s).status = s := by
  unfold openError
  by_cases h : s = .notFound
  · rw [if_pos h, h]
    rfl
  · rw [if_neg h]
    rfl

theorem openError_eq_notFound_iff {s : Status} : openError s = .notFound ↔ s = .notFound := by
  unfold openError
  by_cases h : s = .notFound
  · simp [h]
  · simp [h]

/-- How opening a path turns out. -/
inductive Opens (fw : Services ν φ α) (path : String) (b : Boot ν φ α) :
    Except LoadError Unit × Boot ν φ α → Prop
  /-- The path has no name. -/
  | unspelled (hname : fw.spell (backslashed path) = none) :
      Opens fw path b (.error (.io (.openFailed .invalidParameter)), b)
  /-- The firmware does not open the name. -/
  | unopened {name : List UInt16} {s : Status} {volume : ν}
      (hname : fw.spell (backslashed path) = some name)
      (hopen : fw.openName name b.volume = (.error s, volume)) :
      Opens fw path b (.error (openError s), { b with volume })
  /-- The firmware does not tell what it has opened. -/
  | untyped {name : List UInt16} {s : Status} {volume : ν} {f : φ}
      (hname : fw.spell (backslashed path) = some name)
      (hopen : fw.openName name b.volume = (.ok f, volume)) (htype : fw.intoType f = .error s) :
      Opens fw path b (.error (.io (.openFailed s)), { b with volume })
  | directory {name : List UInt16} {volume : ν} {f : φ}
      (hname : fw.spell (backslashed path) = some name)
      (hopen : fw.openName name b.volume = (.ok f, volume))
      (htype : fw.intoType f = .ok .directory) :
      Opens fw path b (.error (.io (.openFailed .unsupported)), { b with volume })
  | opened {name : List UInt16} {volume : ν} {f f' : φ}
      (hname : fw.spell (backslashed path) = some name)
      (hopen : fw.openName name b.volume = (.ok f, volume))
      (htype : fw.intoType f = .ok (.regular f')) :
      Opens fw path b (.ok (), { b with volume, file := some f' })

section Opening

variable {fw : Services ν φ α} {path : String} {b : Boot ν φ α}

/-- The way in which opening turns out is what opening comes to. -/
theorem Opens.eq {p : Except LoadError Unit × Boot ν φ α} (h : Opens fw path b p) :
    b.openFile fw path = p := by
  cases h with
  | unspelled hname => rw [openFile, nameOf_of_none hname]
  | unopened hname hopen =>
    rw [openFile, nameOf_of_some hname]
    simp only [hopen]
  | untyped hname hopen htype =>
    rw [openFile, nameOf_of_some hname]
    simp only [hopen, htype]
  | directory hname hopen htype =>
    rw [openFile, nameOf_of_some hname]
    simp only [hopen, htype]
  | opened hname hopen htype =>
    rw [openFile, nameOf_of_some hname]
    simp only [hopen, htype]

theorem opens_openFile : Opens fw path b (b.openFile fw path) := by
  suffices h : ∃ p, Opens fw path b p by
    obtain ⟨p, hp⟩ := h
    rw [hp.eq]
    exact hp
  rcases hname : fw.spell (backslashed path) with _ | name
  · exact ⟨_, .unspelled hname⟩
  · rcases hopen : fw.openName name b.volume with ⟨s | f, volume⟩
    · exact ⟨_, .unopened hname hopen⟩
    · rcases htype : fw.intoType f with s | f' | _
      · exact ⟨_, .untyped hname hopen htype⟩
      · exact ⟨_, .opened hname hopen htype⟩
      · exact ⟨_, .directory hname hopen htype⟩

/-- A path that is not opened through a consistent firmware has a failure for its status. -/
theorem Opens.status_ne_success (hfw : fw.Consistent) {p : Except LoadError Unit × Boot ν φ α}
    (h : Opens fw path b p) {e : LoadError} (he : p.1 = .error e) : e.status ≠ .success := by
  cases h with
  | unspelled =>
    cases he
    decide
  | unopened _ hopen =>
    cases he
    rw [status_openError]
    exact hfw.openName hopen
  | untyped _ _ htype =>
    cases he
    exact hfw.intoType htype
  | directory =>
    cases he
    decide
  | opened => cases he

end Opening

/-! ## Calls that the firmware refuses -/

/-- The firmware refuses a call, for which the caller is told this status. -/
inductive Refuses (fw : Services ν φ α) (b : Boot ν φ α) : Call → Status → Prop
  | openImage {path : String} {s : Status} (h : FailsWith s (b.openFile fw path).1) :
      Refuses fw b (.openImage path) s
  | seek {offset : Nat} {f f' : φ} {s : Status} (hfile : b.file = some f)
      (h : fw.setPosition offset f = (.error s, f')) : Refuses fw b (.seek offset) .deviceError
  | read {n : Nat} {f f' : φ} {s : Status} (hfile : b.file = some f) (hn : n ≠ 0)
      (h : fw.readFile n f = (.error s, f')) : Refuses fw b (.read n) s

section Calls

variable {fw : Services ν φ α} {b m : Boot ν φ α} {pre post : List Event} {c : Call}
  {s : Status}

theorem answer_of_reply {r : Reply (Boot ν φ α) c} (h : (handler fw).reply c m = some r) :
    ∃ p, reply fw c m = some p ∧ r.answer = p.1 := by
  obtain ⟨p, hp, rfl⟩ := Option.map_eq_some_iff.1 h
  exact ⟨p, hp, rfl⟩

theorem answer_of_onFile {β : Type} {operation : φ → β × φ} {f : φ} (hfile : m.file = some f) :
    m.onFile operation = some ((operation f).1, { m with file := some (operation f).2 }) := by
  rw [onFile, hfile]
  rfl

/-- A call that is refused fails with an error that has the status. -/
theorem Refuses.failure? (h : Refuses fw m c s) (before : List Event) {r : Reply (Boot ν φ α) c}
    (hreply : (handler fw).reply c m = some r) :
    ∃ e, Event.failure? before ⟨c, r.answer⟩ = some e ∧ e.status = s := by
  obtain ⟨p, hp, hanswer⟩ := answer_of_reply hreply
  rw [hanswer]
  cases h with
  | openImage h =>
    obtain ⟨e, he, rfl⟩ := h
    cases hp
    exact ⟨e, congrArg errorOf? he, rfl⟩
  | seek hfile h =>
    simp only [reply, answer_of_onFile hfile, Boot.seek, h, Option.map_some,
      Option.some.injEq] at hp
    cases hp
    exact ⟨_, rfl, rfl⟩
  | read hfile hn h =>
    simp only [reply, answer_of_onFile hfile, Boot.read, if_neg hn, h, Option.map_some,
      Option.some.injEq] at hp
    cases hp
    exact ⟨_, rfl, rfl⟩

/-- **A call that is refused** is the last one of its run, and the run ends with its status. -/
theorem Refuses.stops {β : Type} {p : Load β} {T : Talk β} (hp : Conforms [] p T) {ev : Event}
    (hevents : (b.run fw p).events = pre ++ ev :: post)
    (hafter : (handler fw).after (pre.map Event.call) b = some m)
    (h : Refuses fw m ev.call s) : post = [] ∧ (b.run fw p).FailsWith s := by
  obtain ⟨talk, result, -, hsmooth, hends⟩ := hp _ (handler fw) b
  obtain ⟨m', r, hafter', hreply, hanswer⟩ := Program.exists_reply (handler fw) p.run hevents
  obtain rfl : m = m' := Option.some.inj (hafter.symm.trans hafter')
  obtain ⟨e, hfail, rfl⟩ := h.failure? ([] ++ pre) hreply
  rw [hanswer] at hfail
  obtain ⟨hpost, houtcome⟩ := hends.stops hsmooth hevents hfail
  exact ⟨hpost, e, houtcome, rfl⟩

theorem exists_error_of_mapError {ε ε' β : Type} {x : Except ε β} {g : ε → ε'} {e : ε'}
    (h : errorOf? (x.mapError g) = some e) : ∃ cause, x = .error cause ∧ g cause = e := by
  cases x with
  | ok a => cases h
  | error cause =>
    cases h
    exact ⟨cause, rfl, rfl⟩

/-! The errors of the other calls. -/

theorem seek_error {offset : Nat} {f : φ} {cause : IoError}
    (h : errorOf? (Boot.seek fw offset f).1 = some cause) : cause = .seekFailed offset := by
  obtain ⟨s, -, rfl⟩ := exists_error_of_mapError h
  rfl

theorem read_error {n : Nat} {f : φ} {cause : IoError} (h : (Boot.read fw n f).1 = .error cause) :
    ∃ s f', fw.readFile n f = (.error s, f') ∧ cause = .readFailed s := by
  unfold Boot.read at h
  by_cases hn : n = 0
  · rw [if_pos hn] at h
    cases h
  · rw [if_neg hn] at h
    obtain ⟨s, hs, rfl⟩ := exists_error_of_mapError (congrArg errorOf? h)
    exact ⟨s, _, Prod.ext hs rfl, rfl⟩

theorem reserve_error {address pages : Nat} {e : LoadError}
    (h : (m.reserve fw address pages).1 = .error e) :
    e = .allocation (.buffer rangeSize) ∨ e = .allocation (.reserve address pages) := by
  cases hroom : m.grantsRoom m.reserved.length with
  | false =>
    rw [reserve_of_no_room hroom] at h
    cases h
    exact Or.inl rfl
  | true =>
    rw [reserve_of_room hroom] at h
    rcases halloc : fw.allocatePages address pages m.allocator with ⟨status | base, s⟩
    · rw [halloc] at h
      cases h
      exact Or.inr rfl
    · rw [halloc] at h
      cases h

/-- Writing and clearing are refused for one reason. -/
theorem error_of_guard {guard : Option Bool} {m' m'' : Boot ν φ α} {refusal e : LoadError}
    {p : Except LoadError Unit × Boot ν φ α}
    (hp : (guard.map fun owned => if owned then (.ok (), m') else (.error refusal, m'')) = some p)
    (he : p.1 = .error e) : e = refusal := by
  obtain ⟨owned, -, rfl⟩ := Option.map_eq_some_iff.1 hp
  cases owned with
  | true => cases he
  | false =>
    cases he
    rfl

/-- What fails through a consistent firmware fails with a failure. -/
theorem status_ne_success_of_failure? (hfw : fw.Consistent) {before : List Event}
    {r : Reply (Boot ν φ α) c} (hreply : (handler fw).reply c m = some r) {e : LoadError}
    (hfail : Event.failure? before ⟨c, r.answer⟩ = some e) : e.status ≠ .success := by
  obtain ⟨p, hp, hanswer⟩ := answer_of_reply hreply
  rw [hanswer] at hfail
  cases c with
  | openImage path =>
    cases hp
    exact opens_openFile.status_ne_success hfw (errorOf?_eq_some hfail)
  | seek offset =>
    obtain ⟨q, hq, rfl⟩ := Option.map_eq_some_iff.1 hp
    obtain ⟨f, -, rfl⟩ := Option.map_eq_some_iff.1 hq
    obtain ⟨cause, hcause, rfl⟩ := Option.map_eq_some_iff.1 hfail
    rw [seek_error hcause]
    exact Status.deviceError_ne_success
  | read n =>
    obtain ⟨q, hq, rfl⟩ := Option.map_eq_some_iff.1 hp
    obtain ⟨f, -, rfl⟩ := Option.map_eq_some_iff.1 hq
    cases hread : (Boot.read fw n f).1 with
    | error cause =>
      obtain ⟨s, f', hs, rfl⟩ := read_error hread
      simp only [hread, Event.failure?, Option.some.injEq] at hfail
      subst hfail
      exact hfw.readFile hs
    | ok chunk =>
      simp only [hread, Event.failure?, Option.ite_none_right_eq_some, Option.some.injEq] at hfail
      obtain ⟨-, rfl⟩ := hfail
      exact Status.deviceError_ne_success
  | close =>
    obtain ⟨f, -, rfl⟩ := Option.map_eq_some_iff.1 hp
    cases hfail
  | reserve address pages =>
    cases hp
    rcases reserve_error (errorOf?_eq_some hfail) with rfl | rfl
    · exact Status.outOfResources_ne_success
    · exact Status.outOfResources_ne_success
  | write address bytes =>
    obtain ⟨q, hq, rfl⟩ := Option.map_eq_some_iff.1 hp
    rw [error_of_guard hq (errorOf?_eq_some hfail)]
    exact Status.outOfResources_ne_success
  | zero address len =>
    obtain ⟨q, hq, rfl⟩ := Option.map_eq_some_iff.1 hp
    rw [error_of_guard hq (errorOf?_eq_some hfail)]
    exact Status.outOfResources_ne_success
  | scratch n =>
    simp only [Event.failure?, Option.ite_none_left_eq_some, Option.some.injEq] at hfail
    obtain ⟨-, rfl⟩ := hfail
    exact Status.outOfResources_ne_success

/-- **A load that fails** through a consistent firmware fails with a failure. -/
theorem status_ne_success_of_load (hfw : fw.Consistent) {path : String} {listing : Bool}
    (h : (b.run fw (Load.image path listing)).FailsWith s) : s ≠ .success := by
  obtain ⟨e, houtcome, rfl⟩ := h
  obtain ⟨talk, result, htalk, -, hends⟩ := Load.conforms_image path listing _ (handler fw) b
  rcases hends.of_error houtcome with rfl | ⟨pre, ev, hevents, hfail⟩
  · exact htalk.status_ne_success
  · obtain ⟨m, r, -, hreply, hanswer⟩ :=
      Program.exists_reply (handler fw) (Load.image path listing).run hevents
    have hfail : Event.failure? ([] ++ pre) ⟨ev.call, r.answer⟩ = some e := by
      rw [hanswer]
      exact hfail
    exact status_ne_success_of_failure? hfw hreply hfail

end Calls

/-! ## Whole files -/

/-- The firmware lets the reading of a whole file down, for which the caller is told this status. -/
inductive ReadStops (fw : Services ν φ α) (path : String) (b : Boot ν φ α) : Status → Prop
  /-- The file is not opened. -/
  | unopened {e : LoadError} {b' : Boot ν φ α} (hopen : b.openFile fw path = (.error e, b'))
      (he : e ≠ .notFound) : ReadStops fw path b e.status
  /-- The end is not reached. -/
  | atEnd {b' : Boot ν φ α} {f f' : φ} {s : Status} (hopen : b.openFile fw path = (.ok (), b'))
      (hfile : b'.file = some f) (h : fw.setPosition endOfFile f = (.error s, f')) :
      ReadStops fw path b .deviceError
  /-- The position of the end is not told. -/
  | size {b' : Boot ν φ α} {f f₁ f₂ : φ} {s : Status} (hopen : b.openFile fw path = (.ok (), b'))
      (hfile : b'.file = some f) (hend : fw.setPosition endOfFile f = (.ok (), f₁))
      (h : fw.getPosition f₁ = (.error s, f₂)) : ReadStops fw path b s
  /-- There is no way back to the start. -/
  | atStart {b' : Boot ν φ α} {f f₁ f₂ f₃ : φ} {n : Nat} {s : Status}
      (hopen : b.openFile fw path = (.ok (), b')) (hfile : b'.file = some f)
      (hend : fw.setPosition endOfFile f = (.ok (), f₁)) (hsize : fw.getPosition f₁ = (.ok n, f₂))
      (h : fw.setPosition 0 f₂ = (.error s, f₃)) : ReadStops fw path b .deviceError
  /-- A call is refused once the size is known. -/
  | call {b' m : Boot ν φ α} {f f' : φ} {n : Nat} {pre post : List Event} {ev : Event} {s : Status}
      (hopen : b.openFile fw path = (.ok (), b')) (hfile : b'.file = some f)
      (hsize : size fw f = (.ok n, f'))
      (hevents : (b.readFile fw path).events = pre ++ ev :: post)
      (hafter : (handler fw).after (pre.map Event.call) { b' with file := some f' } = some m)
      (h : Refuses fw m ev.call s) : ReadStops fw path b s

section WholeFiles

variable {fw : Services ν φ α} {path : String} {b b' : Boot ν φ α} {f f' : φ}

/-- What is asked for a buffer, if it is granted. -/
def bufferTalk (n : Nat) : List Event := if n = 0 then [] else [⟨.scratch n, true⟩]

theorem delivered_bufferTalk (n : Nat) : delivered (bufferTalk n) = 0 := by
  unfold bufferTalk
  by_cases hn : n = 0
  · rw [if_pos hn]
    rfl
  · rw [if_neg hn]
    rfl

theorem conforms_buffer_bind {β : Type} {before : List Event} {n : Nat} {g : Unit → Load β}
    {T : Talk β} (h : Conforms (before ++ bufferTalk n) (g ()) T) :
    Conforms before (buffer n >>= g)
      (fun talk result => ∃ rest, talk = bufferTalk n ++ rest ∧ T rest result) := by
  unfold buffer
  unfold bufferTalk at h ⊢
  by_cases hn : n = 0
  · rw [if_pos hn, List.append_nil] at h
    rw [if_pos hn, if_pos hn, pure_bind]
    exact h.imp fun talk result ht => ⟨talk, rfl, ht⟩
  · rw [if_neg hn] at h
    rw [if_neg hn, if_neg hn]
    exact conforms_scratch_bind h

/-- The conversation in which an open file of known size is read. -/
theorem conforms_readAll (path : String) (n : Nat) :
    Conforms [] (some <$> readAll path n) (fun talk result => ∃ bytes reads,
      Fills n bytes reads ∧ talk = bufferTalk n ++ (reads ++ [⟨.close, .ok ()⟩]) ∧
      result = .ok (some bytes)) := by
  unfold readAll
  simp only [map_bind, map_pure]
  have hclose : ∀ (before : List Event) (bytes : List UInt8),
      Conforms before (Load.ask .close >>= fun answer => Load.check (answer.mapError .io) >>=
        fun _ => pure (some bytes)) (fun talk result =>
          ∃ rest, talk = ⟨.close, .ok ()⟩ :: rest ∧ rest = [] ∧ result = .ok (some bytes)) := by
    intro before bytes
    refine conforms_ask_bind_of_unique (c := .close) (.ok ()) (fun other => ?_)
      (fun other e he => ?_) (conforms_check (x := .ok (some bytes)) ⟨rfl, rfl⟩)
    · exact Option.map_eq_none_iff.trans errorOf?_eq_none_iff
    · obtain ⟨cause, hcause, rfl⟩ := Option.map_eq_some_iff.1 he
      rw [errorOf?_eq_some hcause]
      exact fun _ _ _ => ⟨rfl, rfl⟩
  have hbuffer : delivered ([] ++ bufferTalk n) = 0 := delivered_bufferTalk n
  have hread := conforms_readExact_bind (n := n) hbuffer fun bytes reads _ =>
    hclose ([] ++ bufferTalk n ++ reads) bytes
  refine (conforms_note_bind (conforms_buffer_bind hread)).imp ?_
  rintro talk result ⟨rest, rfl, bytes, reads, tail, hfills, rfl, _, rfl, rfl, rfl⟩
  exact ⟨bytes, reads, hfills, rfl, rfl⟩

theorem readFile_of_missing (hopen : b.openFile fw path = (.error .notFound, b')) :
    b.readFile fw path = ⟨.done (.ok none), b', [], []⟩ := by
  rw [readFile, hopen]

theorem readFile_of_unopened {e : LoadError} (hopen : b.openFile fw path = (.error e, b'))
    (he : e ≠ .notFound) : b.readFile fw path = ⟨.done (.error e), b', [], []⟩ := by
  rw [readFile, hopen]
  cases e with
  | notFound => exact absurd rfl he
  | _ => rfl

/-- Reading an open file, by what the search for its size comes to. -/
theorem readFile_of_opened (hopen : b.openFile fw path = (.ok (), b'))
    (hfile : b'.file = some f) :
    b.readFile fw path =
      match size fw f with
      | (.error e, f') => ⟨.done (.error (.io e)), { b' with file := some f' }, [], []⟩
      | (.ok n, f') => run fw { b' with file := some f' } (some <$> readAll path n) := by
  rw [readFile, hopen]
  dsimp only
  rw [answer_of_onFile hfile]
  rcases hsize : size fw f with ⟨e | n, f'⟩
  · rfl
  · rfl

/-- **Reading a whole file** stops with the status of whatever lets it down. -/
theorem readFile_stops {s : Status} (h : ReadStops fw path b s) :
    (b.readFile fw path).FailsWith s := by
  cases h with
  | unopened hopen he =>
    rw [readFile_of_unopened hopen he]
    exact ⟨_, rfl, rfl⟩
  | atEnd hopen hfile h =>
    rw [readFile_of_opened hopen hfile]
    simp only [Boot.size, h]
    exact ⟨_, rfl, rfl⟩
  | size hopen hfile hend h =>
    rw [readFile_of_opened hopen hfile]
    simp only [Boot.size, hend, h]
    exact ⟨_, rfl, rfl⟩
  | atStart hopen hfile hend hsize h =>
    rw [readFile_of_opened hopen hfile]
    simp only [Boot.size, Boot.seek, hend, hsize, h]
    exact ⟨_, rfl, rfl⟩
  | call hopen hfile hsize hevents hafter h =>
    rw [readFile_of_opened hopen hfile, hsize] at hevents ⊢
    exact (h.stops (conforms_readAll path _) hevents hafter).2

/-- A missing file, and no other, is no error. -/
theorem readFile_eq_none_iff :
    (b.readFile fw path).outcome = .done (.ok none) ↔
      ∃ name volume, fw.spell (backslashed path) = some name ∧
        fw.openName name b.volume = (.error .notFound, volume) := by
  have hopens : Opens fw path b (b.openFile fw path) := opens_openFile
  constructor
  · intro hnone
    generalize hp : b.openFile fw path = p at hopens
    cases hopens with
    | unspelled =>
      rw [readFile_of_unopened hp (by simp)] at hnone
      cases hnone
    | @unopened name s volume hname hopen =>
      by_cases hs : s = .notFound
      · subst hs
        exact ⟨name, volume, hname, hopen⟩
      · rw [readFile_of_unopened hp fun he => hs (openError_eq_notFound_iff.1 he)] at hnone
        cases hnone
    | untyped =>
      rw [readFile_of_unopened hp (by simp)] at hnone
      cases hnone
    | directory =>
      rw [readFile_of_unopened hp (by simp)] at hnone
      cases hnone
    | opened =>
      rw [readFile_of_opened hp rfl] at hnone
      rcases hsize : size fw _ with ⟨e | n, f'⟩
      · rw [hsize] at hnone
        cases hnone
      · rw [hsize] at hnone
        obtain ⟨talk, result, ⟨bytes, reads, -, -, rfl⟩, -, hends⟩ :=
          conforms_readAll path n _ (handler fw) _
        cases (hends.of_ok hnone).2
  · rintro ⟨name, volume, hname, hopen⟩
    rw [readFile_of_missing (Opens.unopened hname hopen).eq]

end WholeFiles

/-! ## All of it -/

/-- Which statuses the caller gets for what the firmware refuses. -/
structure KeepsStatuses (fw : Services ν φ α) (path : String) (b : Boot ν φ α) : Prop where
  /-- A path with a character that does not fit is not shown to the firmware, whatever this one
  is. -/
  unspellable : ¬ Spellable path →
    FailsWith .invalidParameter (b.openFile fw path).1 ∧
      ∀ other : Services ν φ α, other.spell = fw.spell →
        b.openFile other path = ((b.openFile fw path).1, b)
  /-- Every other path has a name. -/
  spellable : Spellable path → ∃ name, fw.spell (backslashed path) = some name
  unopened : ∀ {name : List UInt16} {s : Status} {volume : ν},
    fw.spell (backslashed path) = some name → fw.openName name b.volume = (.error s, volume) →
      FailsWith s (b.openFile fw path).1 ∧
        (s = .notFound → (b.openFile fw path).1 = .error .notFound)
  untyped : ∀ {name : List UInt16} {s : Status} {volume : ν} {f : φ},
    fw.spell (backslashed path) = some name → fw.openName name b.volume = (.ok f, volume) →
      fw.intoType f = .error s → FailsWith s (b.openFile fw path).1
  directory : ∀ {name : List UInt16} {volume : ν} {f : φ},
    fw.spell (backslashed path) = some name → fw.openName name b.volume = (.ok f, volume) →
      fw.intoType f = .ok .directory → FailsWith .unsupported (b.openFile fw path).1
  /-- Opening fails for no other reason. -/
  opened : ∀ {name : List UInt16} {volume : ν} {f f' : φ},
    fw.spell (backslashed path) = some name → fw.openName name b.volume = (.ok f, volume) →
      fw.intoType f = .ok (.regular f') → (b.openFile fw path).1 = .ok ()
  /-- A call that the firmware refuses ends a load. -/
  load_stops : ∀ {listing : Bool} {pre post : List Event} {ev : Event} {m : Boot ν φ α}
    {s : Status}, (b.run fw (Load.image path listing)).events = pre ++ ev :: post →
      (handler fw).after (pre.map Event.call) b = some m → Refuses fw m ev.call s →
        post = [] ∧ (b.run fw (Load.image path listing)).FailsWith s
  readFile_stops : ∀ {s : Status}, ReadStops fw path b s → (b.readFile fw path).FailsWith s
  readFile_eq_none_iff : (b.readFile fw path).outcome = .done (.ok none) ↔
    ∃ name volume, fw.spell (backslashed path) = some name ∧
      fw.openName name b.volume = (.error .notFound, volume)
  load_ne_success : ∀ {listing : Bool} {s : Status},
    (b.run fw (Load.image path listing)).FailsWith s → s ≠ .success

/-- **Statuses reach the caller unchanged**, from a firmware that never refuses with the status of a
success, if texts are spelled in 16-bit characters.  An error from opening a path, from a load or
from the reading of a whole file has the status that the firmware gave when it was asked to open, to
tell a type or to read, or one of its own where a path has a character that does not fit, where it
leads to a directory, or where a position is not reached.  A whole file is taken to be missing
exactly if the firmware does not find its name.  No load fails with the status of a success, not
even where there is no room for one more range. -/
theorem keepsStatuses {fw : Services ν φ α} (hspell : fw.SpellsUcs2) (hfw : fw.Consistent)
    (path : String) (b : Boot ν φ α) : KeepsStatuses fw path b := by
  have hnone : fw.spell (backslashed path) = none ↔ ¬ Spellable path :=
    (hspell _).trans (not_congr (spellable_backslashed_iff path))
  constructor
  case unspellable =>
    intro hpath
    have hall : ∀ other : Services ν φ α, other.spell = fw.spell →
        b.openFile other path = (.error (.io (.openFailed .invalidParameter)), b) := by
      intro other heq
      have hname : other.spell (backslashed path) = none := by
        rw [heq]
        exact hnone.2 hpath
      exact (Opens.unspelled hname).eq
    rw [hall fw rfl]
    exact ⟨⟨_, rfl, rfl⟩, hall⟩
  case spellable =>
    intro hpath
    exact Option.ne_none_iff_exists'.1 fun hno => hnone.1 hno hpath
  case unopened =>
    intro name s volume hname hopen
    rw [(Opens.unopened hname hopen).eq]
    exact ⟨⟨_, rfl, status_openError s⟩, fun hs => by rw [openError_eq_notFound_iff.2 hs]⟩
  case untyped =>
    intro name s volume f hname hopen htype
    rw [(Opens.untyped hname hopen htype).eq]
    exact ⟨_, rfl, rfl⟩
  case directory =>
    intro name volume f hname hopen htype
    rw [(Opens.directory hname hopen htype).eq]
    exact ⟨_, rfl, rfl⟩
  case opened =>
    intro name volume f f' hname hopen htype
    rw [(Opens.opened hname hopen htype).eq]
  case load_stops =>
    intro listing pre post ev m s hevents hafter h
    exact h.stops (Load.conforms_image path listing) hevents hafter
  case readFile_stops => exact readFile_stops
  case readFile_eq_none_iff => exact readFile_eq_none_iff
  case load_ne_success => exact status_ne_success_of_load hfw

end Boot

/-! ## The small firmware -/

theorem character?_eq_none_iff {c : Char} : character? c = none ↔ ¬ Fits c := by
  unfold character? Fits
  by_cases h : c.toNat = 0 ∨ 0xFFFF < c.toNat
  · rw [if_pos h]
    exact iff_of_true rfl (by omega)
  · rw [if_neg h]
    exact iff_of_false (fun hno => by cases hno) (by omega)

theorem mapM_character?_eq_none_iff {cs : List Char} :
    cs.mapM character? = none ↔ ¬ ∀ c ∈ cs, Fits c := by
  induction cs with
  | nil => exact iff_of_false (fun hno => by cases hno) fun hno => hno fun c hc => by cases hc
  | cons c cs ih =>
    rw [List.mapM_cons, List.forall_mem_cons, Classical.not_and_iff_not_or_not,
      ← character?_eq_none_iff, ← ih]
    cases character? c with
    | none => exact iff_of_true rfl (Or.inl rfl)
    | some x =>
      cases cs.mapM character? with
      | none => exact iff_of_true rfl (Or.inr rfl)
      | some xs => exact iff_of_false (fun hno => by cases hno) (by simp)

/-- The small firmware spells the texts whose characters all fit. -/
theorem Profile.spellsUcs2 (p : Profile) : p.services.SpellsUcs2 :=
  fun _ => mapM_character?_eq_none_iff

theorem Profile.failure?_ne_success {told : Option Status} {s : Status}
    (h : failure? told = some s) : s ≠ .success := by
  rintro rfl
  obtain ⟨-, hno⟩ := Option.filter_eq_some_iff.1 h
  cases hno

theorem Profile.getPosition_ne_success {p : Profile} {h : Handle} {s : Status}
    (hfail : p.getPosition h = .error s) : s ≠ .success := by
  unfold getPosition at hfail
  split at hfail
  · cases hfail
    decide
  · split at hfail
    · cases hfail
      exact failure?_ne_success (by assumption)
    · cases hfail

theorem Profile.consistent {p : Profile} (hread : ∀ n s, p.failRead = some (n, s) → s ≠ .success) :
    p.services.Consistent := by
  constructor
  case openName =>
    intro name v v' s h
    have h : p.openName name = .error s := (Prod.mk.inj h).1
    unfold openName at h
    split at h
    · cases h
      exact failure?_ne_success (by assumption)
    · split at h
      · cases h
      · split at h
        · cases h
        · cases h
          decide
  case intoType =>
    intro f s h
    have h : p.intoType f = .error s := h
    unfold intoType at h
    split at h
    · cases h
    · rename_i status hstatus
      by_cases hdir : status = .unsupported
      · rw [if_pos hdir] at h
        cases h
      · rw [if_neg hdir] at h
        cases h
        exact getPosition_ne_success hstatus
  case readFile =>
    intro n f f' s h
    have h : p.readFile n f = (.error s, f') := h
    unfold readFile at h
    dsimp only at h
    split at h
    · split at h
      · cases h
        exact hread _ s (by assumption)
      · cases h
    · cases h

/-- A firmware with a directory and with one file, which it cannot read from the start. -/
def brokenDisk : Profile where
  files := [("\\kernel.elf", [0x7F, 0x45, 0x4C, 0x46])]
  directories := ["\\EFI"]
  failRead := some (0, .error 10)

/-- The file is opened but not read, the directory is not opened, what is not there is missing, and
a path with a character that does not fit is refused. -/
theorem Boot.keepsStatuses_sample :
    let fw := brokenDisk.services
    (fw.SpellsUcs2 ∧ fw.Consistent) ∧
      (∀ path, KeepsStatuses fw path Model.fresh) ∧
      (Model.fresh.run fw (Load.image "/kernel.elf" false)).FailsWith (.error 10) ∧
      (Model.fresh.readFile fw "/kernel.elf").outcome =
        .done (.error (.io (.readFailed (.error 10)))) ∧
      FailsWith .unsupported (Model.fresh.openFile fw "/EFI").1 ∧
      (Model.fresh.readFile fw "/boot.json").outcome = .done (.ok none) ∧
      FailsWith .invalidParameter (Model.fresh.openFile fw "/kernel-🦀.elf").1 := by
  intro fw
  have hconsistent : fw.Consistent := by
    refine Profile.consistent fun n s h => ?_
    cases h
    decide
  have hspell : fw.SpellsUcs2 := brokenDisk.spellsUcs2
  have hkeeps := fun path => keepsStatuses hspell hconsistent path Model.fresh
  refine ⟨⟨hspell, hconsistent⟩, hkeeps, ?_, ?_, ?_, ?_, ?_⟩
  · have hevents : (Model.fresh.run fw (Load.image "/kernel.elf" false)).events =
        [⟨.openImage "/kernel.elf", .ok ()⟩, ⟨.seek 0, .ok ()⟩] ++
          ⟨.read identitySize, .error (.readFailed (.error 10))⟩ :: [] := by
      with_unfolding_all rfl
    exact ((hkeeps "/kernel.elf").load_stops hevents rfl (.read rfl (by decide) rfl)).2
  · with_unfolding_all rfl
  · exact (hkeeps "/EFI").directory (f := { content := [], isDirectory := true }) rfl rfl rfl
  · exact (hkeeps "/boot.json").readFile_eq_none_iff.2 ⟨_, (), rfl, rfl⟩
  · exact ((hkeeps "/kernel-🦀.elf").unspellable (by decide +kernel)).1

end Firmware

end ElfBoot
