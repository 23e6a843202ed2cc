import ElfBoot.Proofs.Host.Outcome
import ElfBoot.Proofs.Load.Containment

/-!
# Loads that share an arena

Loads on one arena never disturb each other, whether they end well or not.  A load changes only
bytes of pages that it was granted itself, and pages are granted only if nobody has them.

* `Arena.Answers`, `Arena.Played`, `Rig.exists_played` — the events of a run as the arena takes
  part in them.
* `Arena.Tidy` — reservations lie in the window and meet neither each other nor an occupied range.
* `Arena.Since` — what contained events add to an arena, and what they leave as it was.
* `Arena.Since.answers`, `Arena.Since.played` — one event, and a run of them.
* `Attempt`, `Attempt.all?` — loads and placements, one after another, on one arena.
* `Attempt.reserved_isolated` — later attempts leave alone what earlier ones reserved.
-/

set_option autoImplicit false

namespace ElfBoot

/-! ## Contained runs -/

theorem Contained.of_append_left {es es' : List Event} (h : Contained (es ++ es')) :
    Contained es := by
  constructor
  case aligned => exact fun ev hev => h.aligned ev (List.mem_append_left _ hev)
  case backed =>
    rintro pre ev post rfl
    exact h.backed pre ev (post ++ es') (by simp)

section Runs

variable {σ : Type} (h : Handler σ) (s : σ)

theorem Load.contained_image (path : String) (listing : Bool) :
    Contained (Program.run h (image path listing).run s).events := by
  obtain ⟨talk, result, htalk, -, hends⟩ := conforms_image path listing σ h s
  exact hends.contained htalk.contained

theorem Load.contained_placeTable (t : Table) :
    Contained (Program.run h (placeTable t).run s).events := by
  obtain ⟨talk, result, ⟨segments, hsound, htalk⟩, -, hends⟩ := conforms_placeTable t σ h s
  exact hends.contained (htalk.contained hsound)

end Runs

namespace Host

/-! ## The arena's part in a run -/

namespace Arena

/-- An arena takes part in an event and is left as another one: a call on the memory is one of its
operations, and no other call reaches it. -/
def Answers : Event → Arena → Arena → Prop
  | ⟨.reserve address pages, answer⟩, a, a' => a.reserve address pages = some (answer, a')
  | ⟨.write address bytes, answer⟩, a, a' => a.write address bytes = some (answer, a')
  | ⟨.zero address len, answer⟩, a, a' => a.zero address len = some (answer, a')
  | _, a, a' => a' = a

/-- An arena takes part in events one after another. -/
inductive Played : Arena → List Event → Arena → Prop
  | nil {a : Arena} : Played a [] a
  | cons {a a' a'' : Arena} {ev : Event} {es : List Event} (h : Answers ev a a')
      (hrest : Played a' es a'') : Played a (ev :: es) a''

theorem played_append_iff {a a'' : Arena} {pre post : List Event} :
    a.Played (pre ++ post) a'' ↔ ∃ a', a.Played pre a' ∧ a'.Played post a'' := by
  induction pre generalizing a with
  | nil =>
    constructor
    · intro h
      exact ⟨a, .nil, h⟩
    · rintro ⟨a', hpre, hpost⟩
      cases hpre
      exact hpost
  | cons ev pre ih =>
    constructor
    · rintro (_ | ⟨hev, hrest⟩)
      obtain ⟨a', hpre, hpost⟩ := ih.1 hrest
      exact ⟨a', .cons hev hpre, hpost⟩
    · rintro ⟨a', _ | ⟨hev, hpre⟩, hpost⟩
      exact .cons hev (ih.2 ⟨a', hpre, hpost⟩)

end Arena

theorem Machine.memory_onFile {α : Type} {m m' : Machine} {operation : File → α × File} {x : α}
    (h : m.onFile operation = some (x, m')) : m'.memory = m.memory := by
  obtain ⟨f, -, heq⟩ := Option.map_eq_some_iff.1 h
  cases heq
  rfl

/-- A call that is none on the memory leaves the memory alone. -/
theorem Machine.memory_reply {c : Call} {m m' : Machine} {answer : c.Answer}
    (h : reply c m = some (answer, m')) (hreserve : ∀ address pages, c ≠ .reserve address pages)
    (htarget : Event.target? ⟨c, answer⟩ = none) : m'.memory = m.memory := by
  cases c with
  | openImage path =>
    simp only [reply] at h
    split at h
    · cases h
      rfl
    · cases h
      rfl
  | seek offset => exact memory_onFile h
  | read len => exact memory_onFile h
  | close =>
    obtain ⟨f, -, heq⟩ := Option.map_eq_some_iff.1 h
    cases heq
    rfl
  | reserve address pages => exact absurd rfl (hreserve address pages)
  | write address bytes => cases htarget
  | zero address len => cases htarget
  | scratch len =>
    cases h
    rfl

namespace Rig

/-- So does such a call that is interfered with. -/
theorem memory_meet {fate : Fate} {c : Call} {m m' : Machine} {answer : c.Answer}
    (h : meet fate c m = some (answer, m')) (hreserve : ∀ address pages, c ≠ .reserve address pages)
    (htarget : Event.target? ⟨c, answer⟩ = none) : m'.memory = m.memory := by
  by_cases hfail : ∃ cause, fate = .fail cause
  · obtain ⟨cause, rfl⟩ := hfail
    cases c with
    | reserve address pages => exact absurd rfl (hreserve address pages)
    | write address bytes => cases htarget
    | zero address len => cases htarget
    | _ =>
      cases h
      rfl
  by_cases hread : ∃ len, c = .read len
  · obtain ⟨len, rfl⟩ := hread
    cases fate with
    | pass => exact Machine.memory_reply (c := .read len) h hreserve htarget
    | shorten limit =>
      obtain ⟨p, hp, heq⟩ := Option.map_eq_some_iff.1 h
      cases heq
      exact Machine.memory_onFile hp
    | fail cause => exact absurd ⟨cause, rfl⟩ hfail
  · rw [meet_of_not_fail hfail (fun len hlen => hread ⟨len, hlen⟩)] at h
    exact Machine.memory_reply h hreserve htarget

/-- **An event** is one of the arena, if the memory of the rig is that arena and never fails. -/
theorem answers_of_reply {r : Rig} {a : Arena} {c : Call} {reply : Reply Rig c}
    (hreply : handler.reply c r = some reply) (harena : r.arena? = some a)
    (hfailure : r.machine.memory.failure = none) :
    ∃ a', reply.state.arena? = some a' ∧ reply.state.machine.memory.failure = none ∧
      Arena.Answers ⟨c, reply.answer⟩ a a' := by
  obtain ⟨⟨answer, m⟩, hmeet, rfl⟩ := Option.map_eq_some_iff.1 hreply
  have honMemory : ∀ {call : MemoryCall}
      {operation : Arena → Option (Except LoadError Unit × Arena)}
      {answer : Except LoadError Unit} {m : Machine},
      r.machine.onMemory call operation = some (answer, m) →
      ∃ a', m.memory.arena = some a' ∧ m.memory.failure = none ∧
        operation a = some (answer, a') := by
    intro call operation answer m h
    have harena : r.machine.memory.arena = some a := harena
    simp only [Machine.onMemory, Memory.apply, Memory.injected?, hfailure, harena,
      Option.map_map, Option.map_eq_some_iff] at h
    obtain ⟨⟨answer', a'⟩, hop, heq⟩ := h
    cases heq
    exact ⟨a', rfl, rfl, hop⟩
  have hother : m.memory = r.machine.memory → m.memory.arena = some a ∧ m.memory.failure = none :=
    fun hmemory => ⟨hmemory ▸ harena, hmemory ▸ hfailure⟩
  cases c with
  | reserve address pages => exact honMemory hmeet
  | write address bytes => exact honMemory hmeet
  | zero address len => exact honMemory hmeet
  | _ =>
    obtain ⟨harena', hfailure'⟩ := hother (memory_meet hmeet (fun _ _ hno => by cases hno) rfl)
    exact ⟨a, harena', hfailure', rfl⟩

/-- **A run** takes the arena along with its events. -/
theorem exists_played {α : Type} (p : Program α) {r : Rig} {a : Arena}
    (harena : r.arena? = some a) (hfailure : r.machine.memory.failure = none) :
    ∃ a', (Program.run handler p r).state.arena? = some a' ∧
      a.Played (Program.run handler p r).events a' := by
  induction p generalizing r a with
  | done value => exact ⟨a, harena, .nil⟩
  | fault => exact ⟨a, harena, .nil⟩
  | note notice rest ih => exact ih harena hfailure
  | call c rest ih =>
    cases hreply : handler.reply c r with
    | none =>
      simp only [Program.run, hreply]
      exact ⟨a, harena, .nil⟩
    | some reply =>
      obtain ⟨a', harena', hfailure', hanswers⟩ := answers_of_reply hreply harena hfailure
      obtain ⟨a'', hstate, hplayed⟩ := ih reply.answer harena' hfailure'
      simp only [Program.run, hreply]
      exact ⟨a'', hstate, .cons hanswers hplayed⟩

end Rig

/-! ## What contained events do to an arena -/

/-- The pages granted in some events, in order. -/
def granted (es : List Event) : List PageRange :=
  es.filterMap fun
    | ⟨.reserve address pages, .ok ()⟩ => some ⟨address, pages⟩
    | _ => none

theorem granted_append (es es' : List Event) : granted (es ++ es') = granted es ++ granted es' :=
  List.filterMap_append

namespace Arena

/-- The bounds of an arena are addresses, its reservations lie in the window, and no address of
one is reserved twice or occupied. -/
structure Tidy (a : Arena) : Prop where
  bounded : a.Bounded
  in_window : ∀ r ∈ a.reserved, a.base ≤ r.address ∧ r.limit ≤ a.base + a.size
  apart : a.reserved.Pairwise fun r q => ∀ x, r.Holds x → ¬ q.Holds x
  unoccupied : ∀ r ∈ a.reserved, ∀ q ∈ a.occupied, ∀ x, r.Holds x → ¬ q.Holds x

theorem tidy_of_reserved_nil {a : Arena} (hwindow : a.base + a.size < wordLimit)
    (hoccupied : ∀ q ∈ a.occupied, q.limit < wordLimit) (hreserved : a.reserved = []) :
    a.Tidy := by
  have hnone : ∀ {r : PageRange}, r ∉ a.reserved := by simp [hreserved]
  constructor
  case bounded => exact bounded_of_reserved_nil hwindow hoccupied hreserved
  case in_window => exact fun r hr => absurd hr hnone
  case apart => simp [hreserved]
  case unoccupied => exact fun r hr => absurd hr hnone

/-- What is in memory makes no difference. -/
theorem Tidy.with_memory {a : Arena} (h : a.Tidy) (memory : AddressSpace) (zeroCalls : Nat) :
    { a with memory, zeroCalls }.Tidy :=
  ⟨⟨h.bounded.window, h.bounded.ranges⟩, h.in_window, h.apart, h.unoccupied⟩

/-- A range for which there is room meets none of the ranges that are taken. -/
theorem Room.not_holds {a : Arena} {r q : PageRange} (h : a.Room r)
    (hq : q ∈ a.reserved ++ a.occupied) {x : Nat} (hrx : r.Holds x) : ¬ q.Holds x := by
  intro hqx
  exact h.free q hq (PageRange.Overlaps.lt ⟨x, hrx, hqx⟩)

theorem Tidy.reserve {a : Arena} (h : a.Tidy) {r : PageRange} (hroom : a.Room r) :
    { a with reserved := a.reserved ++ [r] }.Tidy := by
  constructor
  case bounded => exact h.bounded.reserve hroom
  case in_window =>
    intro q hq
    rcases List.mem_append.1 hq with hold | hnew
    · exact h.in_window q hold
    · obtain rfl := List.mem_singleton.1 hnew
      exact ⟨hroom.base_le, hroom.limit_le⟩
  case apart =>
    refine List.pairwise_append.2 ⟨h.apart, List.pairwise_singleton _ r, fun q hq s hs x hqx => ?_⟩
    obtain rfl := List.mem_singleton.1 hs
    exact fun hsx => hroom.not_holds (List.mem_append_left _ hq) hsx hqx
  case unoccupied =>
    intro q hq s hs x hqx
    rcases List.mem_append.1 hq with hold | hnew
    · exact h.unoccupied q hold s hs x hqx
    · obtain rfl := List.mem_singleton.1 hnew
      exact hroom.not_holds (List.mem_append_right _ hs) hqx

/-- What an arena has come to after some events: the pages they were granted are reserved as well,
and the bytes of earlier reservations are as they were. -/
structure Since (a₀ : Arena) (before : List Event) (a : Arena) : Prop where
  base_eq : a.base = a₀.base
  size_eq : a.size = a₀.size
  occupied_eq : a.occupied = a₀.occupied
  reserved_eq : a.reserved = a₀.reserved ++ granted before
  kept : ∀ q ∈ a₀.reserved, ∀ x, q.Holds x → a.memory.byte x = a₀.memory.byte x

theorem since_nil (a : Arena) : a.Since [] a :=
  ⟨rfl, rfl, rfl, (List.append_nil _).symm, fun _ _ _ _ => rfl⟩

section Steps

variable {a₀ a a' : Arena} {before : List Event} {ev : Event}

/-- Bytes that are backed by pages granted since then lie in no earlier reservation. -/
theorem Since.not_holds_of_backed (h : Since a₀ before a) (ht : a.Tidy) {address len x : Nat}
    (hb : Backed before address len) {q : PageRange} (hq : q ∈ a₀.reserved) (hqx : q.Holds x) :
    ¬ (address ≤ x ∧ x < address + len) := by
  obtain ⟨pre, base, pages, post, rfl, hlo, hhi, -⟩ := hb
  have hmem : ⟨base, pages⟩ ∈ granted (pre ++ ⟨.reserve base pages, .ok ()⟩ :: post) := by
    rw [granted_append]
    exact List.mem_append_right _ List.mem_cons_self
  have hapart := ht.apart
  rw [h.reserved_eq] at hapart
  have hfree := (List.pairwise_append.1 hapart).2.2 q hq ⟨base, pages⟩ hmem x hqx
  rintro ⟨hx, hx'⟩
  exact hfree ⟨Nat.le_trans hlo hx, Nat.lt_of_lt_of_le hx' hhi⟩

/-- An event that changes bytes outside of earlier reservations at most. -/
theorem Since.with_memory (h : Since a₀ before a) (hgranted : granted [ev] = [])
    {memory : AddressSpace} (zeroCalls : Nat)
    (hkept : ∀ q ∈ a₀.reserved, ∀ x, q.Holds x → memory.byte x = a.memory.byte x) :
    Since a₀ (before ++ [ev]) { a with memory, zeroCalls } := by
  refine ⟨h.base_eq, h.size_eq, h.occupied_eq, ?_, fun q hq x hqx => ?_⟩
  · rw [granted_append, hgranted, List.append_nil]
    exact h.reserved_eq
  · exact (hkept q hq x hqx).trans (h.kept q hq x hqx)

/-- **One event** that is backed, if it changes memory. -/
theorem Since.answers (h : Since a₀ before a) (ht : a.Tidy) (ha : Answers ev a a')
    (hb : ∀ address len, ev.target? = some (address, len) → Backed before address len) :
    Since a₀ (before ++ [ev]) a' ∧ a'.Tidy := by
  have hsame : ∀ q ∈ a₀.reserved, ∀ x, q.Holds x → a.memory.byte x = a.memory.byte x :=
    fun _ _ _ _ => rfl
  obtain ⟨c, answer⟩ := ev
  cases c with
  | reserve address pages =>
    have ha : a.reserve address pages = some (answer, a') := ha
    by_cases hroom : a.Room ⟨address, pages⟩
    · rw [reserve_of_room ht.bounded hroom] at ha
      cases ha
      refine ⟨⟨h.base_eq, h.size_eq, h.occupied_eq, ?_, h.kept⟩, ht.reserve hroom⟩
      rw [granted_append, ← List.append_assoc, ← h.reserved_eq]
      rfl
    · rw [reserve_of_no_room ht.bounded hroom] at ha
      cases ha
      exact ⟨h.with_memory rfl a.zeroCalls hsame, ht⟩
  | write address bytes =>
    obtain ⟨owned, -, heq⟩ := Option.map_eq_some_iff.1 ha
    cases owned with
    | false =>
      cases heq
      exact ⟨h.with_memory rfl a.zeroCalls hsame, ht⟩
    | true =>
      cases heq
      refine ⟨h.with_memory rfl a.zeroCalls fun q hq x hqx => ?_, ht.with_memory _ _⟩
      exact AddressSpace.byte_store_of_outside
        (h.not_holds_of_backed ht (hb address bytes.length rfl) hq hqx)
  | zero address len =>
    obtain ⟨owned, -, heq⟩ := Option.map_eq_some_iff.1 ha
    cases owned with
    | false =>
      cases heq
      exact ⟨h.with_memory rfl a.zeroCalls hsame, ht⟩
    | true =>
      cases heq
      refine ⟨h.with_memory rfl (a.zeroCalls + 1) fun q hq x hqx => ?_, ht.with_memory _ _⟩
      exact AddressSpace.byte_clear_of_outside
        (h.not_holds_of_backed ht (hb address len rfl) hq hqx)
  | _ =>
    cases ha
    exact ⟨h.with_memory rfl a.zeroCalls hsame, ht⟩

/-- **Contained events**, one after another. -/
theorem Since.played {es : List Event} (h : Since a₀ before a) (ht : a.Tidy)
    (hp : a.Played es a') (hc : Contained (before ++ es)) :
    Since a₀ (before ++ es) a' ∧ a'.Tidy := by
  induction hp generalizing before with
  | nil =>
    rw [List.append_nil]
    exact ⟨h, ht⟩
  | @cons a a₁ a' ev es ha hrest ih =>
    obtain ⟨h₁, ht₁⟩ := h.answers ht ha (hc.backed before ev es rfl)
    rw [List.append_cons] at hc ⊢
    exact ih h₁ ht₁ hc

end Steps

end Arena

/-! ## Attempts on one arena -/

/-- What is done with an arena: an image is loaded, or a table placed by itself. -/
inductive Task where
  | load (path : String) (listing : Bool)
  | placeTable (table : Table)

/-- A load or a placement with whatever it finds around it: the files, and the open one if a table
is placed; the scratch buffers to be had; and the fate of every call.  The memory of the machine is
not used, since it is the arena on which the attempt is made. -/
structure Attempt where
  task : Task
  machine : Machine
  fate : Nat → Fate

/-- The events of a run, and the arena after it. -/
def Rig.play? {α : Type} (r : Rig) (p : Load α) : Option (List Event × Arena) :=
  (r.run p).state.arena?.map fun a => ((r.run p).events, a)

namespace Attempt

/-- The rig of an attempt on an arena. -/
def rig (t : Attempt) (a : Arena) : Rig where
  machine := { t.machine with memory := { arena := some a } }
  fate := t.fate

/-- The events of an attempt on an arena, and the arena after it, however it ends. -/
def on? (t : Attempt) (a : Arena) : Option (List Event × Arena) :=
  match t.task with
  | .load path listing => (t.rig a).play? (Load.image path listing)
  | .placeTable table => (t.rig a).play? (Load.placeTable table)

/-- The events of attempts, one after another on one arena, and the arena after them. -/
def all? : List Attempt → Arena → Option (List Event × Arena)
  | [], a => some ([], a)
  | t :: rest, a => (t.on? a).bind fun p => (all? rest p.2).map fun q => (p.1 ++ q.1, q.2)

variable {a : Arena}

theorem on?_spec (t : Attempt) (a : Arena) :
    ∃ es a', t.on? a = some (es, a') ∧ Contained es ∧ a.Played es a' := by
  obtain ⟨task, machine, fate⟩ := t
  cases task with
  | load path listing =>
    obtain ⟨a', hstate, hplayed⟩ := Rig.exists_played (Load.image path listing).run
      (r := rig ⟨.load path listing, machine, fate⟩ a) rfl rfl
    refine ⟨_, a', ?_, Load.contained_image Rig.handler _ path listing, hplayed⟩
    exact Option.map_eq_some_iff.2 ⟨a', hstate, rfl⟩
  | placeTable table =>
    obtain ⟨a', hstate, hplayed⟩ := Rig.exists_played (Load.placeTable table).run
      (r := rig ⟨.placeTable table, machine, fate⟩ a) rfl rfl
    refine ⟨_, a', ?_, Load.contained_placeTable Rig.handler _ table, hplayed⟩
    exact Option.map_eq_some_iff.2 ⟨a', hstate, rfl⟩

theorem all?_spec (ts : List Attempt) (a : Arena) :
    ∃ es a', all? ts a = some (es, a') ∧ Contained es ∧ a.Played es a' := by
  induction ts generalizing a with
  | nil => exact ⟨[], a, rfl, contained_nil, .nil⟩
  | cons t rest ih =>
    obtain ⟨es, a₁, ht, hcontained, hplayed⟩ := t.on?_spec a
    obtain ⟨es', a₂, hrest, hcontained', hplayed'⟩ := ih a₁
    refine ⟨es ++ es', a₂, ?_, hcontained.append hcontained',
      Arena.played_append_iff.2 ⟨a₁, hplayed, hplayed'⟩⟩
    rw [all?, ht, Option.bind_some, hrest, Option.map_some]

/-- **Later attempts leave alone what earlier ones reserved.**  At every moment of the later ones,
the reservations are those of before with the ones granted since then behind them, all of them lie
in the window and meet neither each other nor an occupied range, and the bytes that were reserved
before are as they were. -/
theorem reserved_isolated (hwindow : a.base + a.size < wordLimit)
    (hoccupied : ∀ q ∈ a.occupied, q.limit < wordLimit) (hreserved : a.reserved = [])
    (earlier later : List Attempt) :
    ∃ es a₁ es' a₂, all? earlier a = some (es, a₁) ∧ all? later a₁ = some (es', a₂) ∧
      a.Since es a₁ ∧ ∀ pre post, es' = pre ++ post →
        ∃ a', a₁.Played pre a' ∧ a'.Played post a₂ ∧ a₁.Since pre a' ∧ a'.Tidy := by
  obtain ⟨es, a₁, hall, hcontained, hplayed⟩ := all?_spec earlier a
  obtain ⟨es', a₂, hall', hcontained', hplayed'⟩ := all?_spec later a₁
  obtain ⟨hsince, htidy⟩ := a.since_nil.played
    (Arena.tidy_of_reserved_nil hwindow hoccupied hreserved) hplayed hcontained
  refine ⟨es, a₁, es', a₂, hall, hall', hsince, ?_⟩
  rintro pre post rfl
  obtain ⟨a', hpre, hpost⟩ := Arena.played_append_iff.1 hplayed'
  exact ⟨a', hpre, hpost, a₁.since_nil.played htidy hpre hcontained'.of_append_left⟩

/-- A load of the sample image that ends well. -/
def sampleLoad : Attempt := ⟨.load "kernel" false, Rig.sampleRig.machine, fun _ => .shorten 7⟩

/-- A load of the next page on which the file fails once the page is reserved. -/
def brokenLoad : Attempt where
  task := .load "kernel" false
  machine :=
    { volume :=
        { files := [("kernel", Builder.build
            { width := .bits32
              parts := [{ offset := 0x54, data := [7], memorySize := 1, address := 0x2000 }] })] } }
  fate n := if n = 12 then .fail .closeFailed else .pass

/-- The table of the sample image by itself, for which there is no room after the image. -/
def sampleTable : Attempt where
  task := .placeTable
    ((Table.ofBlob? .bits32 32 ((Rig.sampleImage.drop 52).take 32)).getD (.empty .bits32))
  machine := { file := some { content := Rig.sampleImage } }
  fate _ := .pass

theorem reserved_isolated_sample :
    ∃ es a₁ es' a₂, all? [sampleLoad] (Arena.fresh 0x1000 0x2000) = some (es, a₁) ∧
      all? [brokenLoad, sampleTable] a₁ = some (es', a₂) ∧ a₂.Tidy ∧ a₁.Since es' a₂ ∧
      a₂.reserved = [⟨0x1000, 1⟩, ⟨0x2000, 1⟩] := by
  have hoccupied : ∀ q ∈ (Arena.fresh 0x1000 0x2000).occupied, q.limit < wordLimit := by
    intro q hq
    cases hq
  obtain ⟨es, a₁, es', a₂, hall, hall', -, hmoments⟩ :=
    reserved_isolated (by decide) hoccupied rfl [sampleLoad] [brokenLoad, sampleTable]
  obtain ⟨a', -, hend, hsince, htidy⟩ := hmoments es' [] (List.append_nil es').symm
  cases hend
  refine ⟨es, a₁, es', a₂, hall, hall', htidy, hsince, ?_⟩
  have hrun : ((all? [sampleLoad] (Arena.fresh 0x1000 0x2000)).bind fun p =>
      all? [brokenLoad, sampleTable] p.2).map (fun p => p.2.reserved) =
      some [⟨0x1000, 1⟩, ⟨0x2000, 1⟩] := by decide +kernel
  rw [hall, Option.bind_some, hall', Option.map_some] at hrun
  exact Option.some_inj.1 hrun

end Attempt

end Host

end ElfBoot
