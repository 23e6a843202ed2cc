import ElfBoot.Host.Machine
import ElfBoot.Load.Headers
import ElfBoot.Proofs.Program.Ensures

/-!
# A machine whose calls are interfered with

A rig is a machine under test.  A script, the fate of every call by its number, cuts reads short
and makes calls on the file or the allocator fail, on top of whatever the file itself does.  Since
the script may name any call, it stands for every way in which a file can split its reads and for
every way in which a file and an allocator can fail.  Calls on the memory always get through.

* `Fate`, `Rig`, `Rig.handler` — what is done to a call, the rig, and how it answers.
* `Rig.Serves` — the rig has the file of some surroundings open at a position, and an arena.
* `Rig.openImage` — an image that could be opened is served from its start.
* `Rig.Serves.seek`, `Rig.Serves.read`, `Rig.Serves.scratch`, `Rig.Serves.close` — what a rig that
  serves answers to calls on the file and the allocator; only one that is not calm makes them fail.
* `Rig.Serves.reserve`, `Rig.Serves.write`, `Rig.Serves.zero` — calls on the memory are the
  arena's operations.
-/

set_option autoImplicit false

namespace ElfBoot.Host

/-- What is done to a call on its way to the machine. -/
inductive Fate where
  /-- The machine answers it. -/
  | pass
  /-- If it is a read, it delivers at most `limit` bytes at once, but at least one while any are
  left. -/
  | shorten (limit : Nat)
  /-- It fails, unless it is a call on the memory. -/
  | fail (cause : IoError)

/-- A chunk that is small enough for a request is small enough for a larger one. -/
def widen {k n : Nat} (h : k ≤ n) (c : Chunk k) : Chunk n := ⟨c.val, Nat.le_trans c.property h⟩

/-- A machine, the fate of every call, and the number of calls so far. -/
structure Rig where
  machine : Machine
  fate : Nat → Fate
  calls : Nat := 0

namespace Rig

/-- How a machine answers a call that meets a fate. -/
def meet (fate : Fate) : (c : Call) → Machine → Option (c.Answer × Machine)
  | .openImage path, m =>
    match fate with
    | .fail cause => some (.error (.io cause), m)
    | _ => Machine.reply (.openImage path) m
  | .seek offset, m =>
    match fate with
    | .fail cause => some (.error cause, m)
    | _ => Machine.reply (.seek offset) m
  | .read len, m =>
    match fate with
    | .fail cause => some (.error cause, m)
    | .shorten limit =>
      (m.onFile (File.read (min len (max 1 limit)))).map fun p =>
        (p.1.map (widen (Nat.min_le_left _ _)), p.2)
    | .pass => Machine.reply (.read len) m
  | .close, m =>
    match fate with
    | .fail cause => some (.error cause, { m with file := none })
    | _ => Machine.reply .close m
  | .scratch len, m =>
    match fate with
    | .fail _ => some (false, m)
    | _ => Machine.reply (.scratch len) m
  | .reserve address pages, m => Machine.reply (.reserve address pages) m
  | .write address bytes, m => Machine.reply (.write address bytes) m
  | .zero address len, m => Machine.reply (.zero address len) m

/-- The rig as the collaborators of a program. -/
def handler : Handler Rig where
  reply c r := (meet (r.fate r.calls) c r.machine).map fun p =>
    { answer := p.1, state := { r with machine := p.2, calls := r.calls + 1 } }

/-- Runs a loading procedure on a rig. -/
def run {α : Type} (r : Rig) (p : Load α) : Run Rig (Except LoadError α) :=
  Program.run handler p.run r

/-- The arena of the machine, if it has one. -/
def arena? (r : Rig) : Option Arena := r.machine.memory.arena

/-- No call is made to fail; reads may still be cut short. -/
def Calm (r : Rig) : Prop := ∀ n cause, r.fate n ≠ .fail cause

end Rig

/-- A file that does not fail; it may still cut reads short. -/
structure FileTraits.Faultless (t : FileTraits) : Prop where
  seek : t.failSeek = none
  read : t.failRead = none
  close : t.failClose = false

/-- The bytes of the file at a path; none if there is no file. -/
def Volume.content (v : Volume) (path : String) : List UInt8 := (v.files.lookup path).getD []

theorem Volume.content_of_lookup {v : Volume} {path : String} {bytes : List UInt8}
    (h : v.files.lookup path = some bytes) : v.content path = bytes := by
  rw [content, h, Option.getD_some]

/-- What a load finds around it: the bytes of the file, the scratch buffers to be had, and that
nothing is made to fail, not even a request for a buffer that headers may need. -/
structure Surroundings where
  content : List UInt8
  grants : Nat → Bool
  calm : Prop

/-- The rig has a file with the surroundings' content open at a position, and an arena for a memory
of which no call is made to fail. -/
structure Rig.Serves (env : Surroundings) (a : Arena) (position : Nat) (r : Rig) : Prop where
  file : ∃ f, r.machine.file = some f ∧ f.content = env.content ∧ f.position = position ∧
    (env.calm → f.traits.Faultless)
  arena : r.arena? = some a
  failure : r.machine.memory.failure = none
  grants : r.machine.grantsScratch = env.grants
  fate : env.calm → r.Calm
  buffers : env.calm → ∀ n ≤ maxTableSize, env.grants n = true

/-- A read that succeeds delivers the bytes at the position, and some unless none were asked for
or none are left. -/
theorem File.read_spec (f : File) (n : Nat) :
    match (f.read n).1 with
    | .ok c => c.val = (f.content.drop f.position).take c.val.length ∧
        (c.val = [] → n = 0 ∨ f.content.length ≤ f.position) ∧
        (f.read n).2 = { f with position := f.position + c.val.length }
    | .error _ => f.traits.failRead = some f.position := by
  by_cases hfail : f.traits.failRead = some f.position
  · simp only [File.read, if_pos hfail]
    exact hfail
  rw [File.read, if_neg hfail]
  refine ⟨?_, fun hnil => ?_, rfl⟩
  · show f.available n = (f.content.drop f.position).take (f.available n).length
    rw [File.available, List.length_take]
    exact List.take_eq_take_min
  · have hlen : (f.available n).length = 0 := congrArg List.length hnil
    rw [File.available, List.length_take, List.length_drop] at hlen
    have hreach : f.reach n = 0 → n = 0 := by
      intro hz
      rw [File.reach] at hz
      split at hz
      · exact hz
      · omega
    omega

/-- An operation that the arena can carry out is carried out. -/
theorem Machine.onMemory_of_arena {m : Machine} {a a' : Arena} {answer : Except LoadError Unit}
    {operation : Arena → Option (Except LoadError Unit × Arena)}
    (harena : m.memory.arena = some a) (hfailure : m.memory.failure = none) (call : MemoryCall)
    (hop : operation a = some (answer, a')) :
    m.onMemory call operation = some (answer, { m with memory :=
      { m.memory with calls := call :: m.memory.calls, arena := some a' } }) := by
  have hinj : m.memory.injected? call = none := by rw [Memory.injected?, hfailure]
  simp only [onMemory, Memory.apply, hinj, harena, hop, Option.map_some]

namespace Rig

/-- The rig after a call that left the machine as `m`. -/
def next (r : Rig) (m : Machine) : Rig := { r with machine := m, calls := r.calls + 1 }

theorem reply_of_meet {r : Rig} {c : Call} {answer : c.Answer} {m : Machine}
    (h : meet (r.fate r.calls) c r.machine = some (answer, m)) :
    handler.reply c r = some { answer := answer, state := r.next m } := by
  simp only [handler, h, Option.map_some]
  rfl

/-- A call that is neither made to fail nor cut short reaches the machine. -/
theorem meet_of_not_fail {fate : Fate} {c : Call} (hfate : ¬ ∃ cause, fate = .fail cause)
    (hread : ∀ n, c ≠ .read n) (m : Machine) : meet fate c m = Machine.reply c m := by
  cases fate with
  | fail cause => exact absurd ⟨cause, rfl⟩ hfate
  | pass => cases c <;> rfl
  | shorten limit =>
    cases c with
    | read n => exact absurd rfl (hread n)
    | _ => rfl

/-! ## Answers -/

section Answers

variable {env : Surroundings} {a : Arena} {position : Nat} {r : Rig}

/-- Whatever a call does to the file alone leaves the rig serving. -/
theorem Serves.next_file (h : r.Serves env a position) {f : File} {p : Nat}
    (hcontent : f.content = env.content) (hp : f.position = p)
    (htraits : env.calm → f.traits.Faultless) :
    (r.next { r.machine with file := some f }).Serves env a p :=
  ⟨⟨f, rfl, hcontent, hp, htraits⟩, h.arena, h.failure, h.grants, h.fate, h.buffers⟩

theorem Serves.next_self (h : r.Serves env a position) :
    (r.next r.machine).Serves env a position :=
  ⟨h.file, h.arena, h.failure, h.grants, h.fate, h.buffers⟩

/-- The rig of calm surroundings makes no call fail. -/
theorem Serves.not_calm (h : r.Serves env a position) {n : Nat} {cause : IoError}
    (hf : r.fate n = .fail cause) : ¬ env.calm := fun hc => h.fate hc n cause hf

theorem Serves.seek (h : r.Serves env a position) (offset : Nat) :
    ∃ reply, handler.reply (.seek offset) r = some reply ∧
      match reply.answer with
      | .ok _ => reply.state.Serves env a offset
      | .error _ => ¬ env.calm ∧ reply.state.arena? = some a := by
  obtain ⟨f, hf, hcontent, hpos, htraits⟩ := h.file
  by_cases hfail : ∃ cause, r.fate r.calls = .fail cause
  · obtain ⟨cause, hfail⟩ := hfail
    have hmeet : meet (r.fate r.calls) (.seek offset) r.machine =
        some (.error cause, r.machine) := by rw [hfail]; rfl
    exact ⟨_, reply_of_meet hmeet, h.not_calm hfail, h.arena⟩
  have hpass : meet (r.fate r.calls) (.seek offset) r.machine =
      r.machine.onFile (File.seek offset) :=
    meet_of_not_fail hfail (fun k hk => by cases hk) r.machine
  rw [Machine.onFile, hf, Option.map_some] at hpass
  refine ⟨_, reply_of_meet hpass, ?_⟩
  by_cases hseek : f.traits.failSeek = some offset
  · simp only [File.seek, if_pos hseek]
    refine ⟨fun hcalm => ?_, h.arena⟩
    rw [(htraits hcalm).seek] at hseek
    cases hseek
  · simp only [File.seek, if_neg hseek]
    exact h.next_file hcontent rfl htraits

theorem Serves.read (h : r.Serves env a position) (n : Nat) :
    ∃ reply, handler.reply (.read n) r = some reply ∧
      match reply.answer with
      | .ok c => c.val = (env.content.drop position).take c.val.length ∧
          (c.val = [] → n = 0 ∨ env.content.length ≤ position) ∧
          reply.state.Serves env a (position + c.val.length)
      | .error _ => ¬ env.calm ∧ reply.state.arena? = some a := by
  obtain ⟨f, hf, hcontent, hpos, htraits⟩ := h.file
  -- what a read of any length does, before it is made to fit the request
  have hread : ∀ k ≤ n, (k = 0 → n = 0) →
      match (f.read k).1 with
      | .ok c => c.val = (env.content.drop position).take c.val.length ∧
          (c.val = [] → n = 0 ∨ env.content.length ≤ position) ∧
          (r.next { r.machine with file := some (f.read k).2 }).Serves env a
            (position + c.val.length)
      | .error _ => ¬ env.calm ∧
          (r.next { r.machine with file := some (f.read k).2 }).arena? = some a := by
    intro k hk hzero
    have hspec := f.read_spec k
    cases hans : (f.read k).1 with
    | ok c =>
      rw [hans] at hspec
      obtain ⟨htake, hempty, hstate⟩ := hspec
      rw [hstate]
      rw [hcontent, hpos] at htake hempty
      exact ⟨htake, fun hnil => (hempty hnil).imp_left hzero,
        h.next_file hcontent (by rw [← hpos]) htraits⟩
    | error e =>
      rw [hans] at hspec
      refine ⟨fun hcalm => ?_, h.arena⟩
      rw [(htraits hcalm).read] at hspec
      cases hspec
  cases hfate : r.fate r.calls with
  | fail cause =>
    have hmeet : meet (r.fate r.calls) (.read n) r.machine = some (.error cause, r.machine) := by
      rw [hfate]; rfl
    exact ⟨_, reply_of_meet hmeet, h.not_calm hfate, h.arena⟩
  | pass =>
    have hmeet : meet (r.fate r.calls) (.read n) r.machine =
        some ((f.read n).1, { r.machine with file := some (f.read n).2 }) := by
      simp only [hfate, meet, Machine.reply, Machine.onFile, hf, Option.map_some]
    exact ⟨_, reply_of_meet hmeet, hread n (Nat.le_refl n) id⟩
  | shorten limit =>
    have hmeet : meet (r.fate r.calls) (.read n) r.machine =
        some ((f.read (min n (max 1 limit))).1.map (widen (Nat.min_le_left _ _)),
          { r.machine with file := some (f.read (min n (max 1 limit))).2 }) := by
      simp only [hfate, meet, Machine.onFile, hf, Option.map_some]
    have hk := hread (min n (max 1 limit)) (Nat.min_le_left _ _) (by omega)
    refine ⟨_, reply_of_meet hmeet, ?_⟩
    dsimp only
    cases hans : (f.read (min n (max 1 limit))).1 with
    | ok c =>
      rw [hans] at hk
      exact hk
    | error e =>
      rw [hans] at hk
      exact hk

theorem Serves.scratch (h : r.Serves env a position) (n : Nat) :
    ∃ reply, handler.reply (.scratch n) r = some reply ∧ reply.state.Serves env a position ∧
      (reply.answer = true → env.grants n = true) ∧
      (reply.answer = false → env.calm → env.grants n = false) := by
  by_cases hfail : ∃ cause, r.fate r.calls = .fail cause
  · obtain ⟨cause, hfail⟩ := hfail
    have hmeet : meet (r.fate r.calls) (.scratch n) r.machine = some (false, r.machine) := by
      rw [hfail]; rfl
    refine ⟨_, reply_of_meet hmeet, h.next_self, fun hans => ?_, fun _ hcalm => ?_⟩
    · cases hans
    · exact absurd hcalm (h.not_calm hfail)
  have hpass : meet (r.fate r.calls) (.scratch n) r.machine =
      some (r.machine.grantsScratch n, r.machine) :=
    meet_of_not_fail hfail (fun k hk => by cases hk) r.machine
  refine ⟨_, reply_of_meet hpass, h.next_self, fun hans => ?_, fun hans _ => ?_⟩
  · rw [← h.grants]; exact hans
  · rw [← h.grants]; exact hans

theorem Serves.close (h : r.Serves env a position) :
    ∃ reply, handler.reply .close r = some reply ∧ reply.state.arena? = some a ∧
      (env.calm → reply.answer = .ok ()) := by
  obtain ⟨f, hf, hcontent, hpos, htraits⟩ := h.file
  by_cases hfail : ∃ cause, r.fate r.calls = .fail cause
  · obtain ⟨cause, hfail⟩ := hfail
    have hmeet : meet (r.fate r.calls) .close r.machine =
        some (.error cause, { r.machine with file := none }) := by rw [hfail]; rfl
    exact ⟨_, reply_of_meet hmeet, h.arena, fun hcalm => absurd hcalm (h.not_calm hfail)⟩
  have hpass : meet (r.fate r.calls) .close r.machine = r.machine.closeFile :=
    meet_of_not_fail hfail (fun k hk => by cases hk) r.machine
  rw [Machine.closeFile, hf, Option.map_some] at hpass
  refine ⟨_, reply_of_meet hpass, h.arena, fun hcalm => ?_⟩
  show f.close = .ok ()
  rw [File.close, (htraits hcalm).close]
  rfl

/-! ### Calls on the memory -/

/-- An operation that the arena can carry out is carried out. -/
theorem Serves.onMemory (h : r.Serves env a position) (call : MemoryCall)
    (operation : Arena → Option (Except LoadError Unit × Arena)) {answer : Except LoadError Unit}
    {a' : Arena} (hop : operation a = some (answer, a')) :
    ∃ m, r.machine.onMemory call operation = some (answer, m) ∧
      (r.next m).Serves env a' position := by
  refine ⟨_, Machine.onMemory_of_arena h.arena h.failure call hop, ?_⟩
  exact ⟨h.file, rfl, h.failure, h.grants, h.fate, h.buffers⟩

theorem Serves.reserve (h : r.Serves env a position) {address pages : Nat}
    {answer : Except LoadError Unit} {a' : Arena}
    (hop : a.reserve address pages = some (answer, a')) :
    ∃ reply, handler.reply (.reserve address pages) r = some reply ∧ reply.answer = answer ∧
      reply.state.Serves env a' position := by
  obtain ⟨m, hm, hs⟩ := h.onMemory .reserve (fun a => a.reserve address pages) hop
  have hmeet : meet (r.fate r.calls) (.reserve address pages) r.machine = some (answer, m) := hm
  exact ⟨_, reply_of_meet hmeet, rfl, hs⟩

theorem Serves.write (h : r.Serves env a position) {address : Nat} {bytes : List UInt8}
    {answer : Except LoadError Unit} {a' : Arena}
    (hop : a.write address bytes = some (answer, a')) :
    ∃ reply, handler.reply (.write address bytes) r = some reply ∧ reply.answer = answer ∧
      reply.state.Serves env a' position := by
  obtain ⟨m, hm, hs⟩ := h.onMemory .write (fun a => a.write address bytes) hop
  have hmeet : meet (r.fate r.calls) (.write address bytes) r.machine = some (answer, m) := hm
  exact ⟨_, reply_of_meet hmeet, rfl, hs⟩

theorem Serves.zero (h : r.Serves env a position) {address len : Nat}
    {answer : Except LoadError Unit} {a' : Arena}
    (hop : a.zero address len = some (answer, a')) :
    ∃ reply, handler.reply (.zero address len) r = some reply ∧ reply.answer = answer ∧
      reply.state.Serves env a' position := by
  obtain ⟨m, hm, hs⟩ := h.onMemory .zero (fun a => a.zero address len) hop
  have hmeet : meet (r.fate r.calls) (.zero address len) r.machine = some (answer, m) := hm
  exact ⟨_, reply_of_meet hmeet, rfl, hs⟩

end Answers

/-! ### Opening -/

/-- No call is made to fail, by the rig or by the file, and every buffer that headers may need is
to be had. -/
structure Undisturbed (r : Rig) : Prop where
  calls : r.Calm
  opening : r.machine.volume.failOpen = none
  file : r.machine.volume.traits.Faultless
  buffers : ∀ n ≤ maxTableSize, r.machine.grantsScratch n = true

/-- What a load of the image at a path finds. -/
def surroundings (r : Rig) (path : String) : Surroundings where
  content := r.machine.volume.content path
  grants := r.machine.grantsScratch
  calm := r.Undisturbed

theorem openImage (r : Rig) {a : Arena} (harena : r.arena? = some a)
    (hfailure : r.machine.memory.failure = none) (path : String) :
    ∃ reply, handler.reply (.openImage path) r = some reply ∧
      match reply.answer with
      | .ok _ => r.machine.volume.files.lookup path ≠ none ∧
          reply.state.Serves (r.surroundings path) a 0
      | .error e => reply.state.arena? = some a ∧
          (r.Undisturbed → r.machine.volume.files.lookup path = none ∧ e = .notFound) := by
  by_cases hfail : ∃ cause, r.fate r.calls = .fail cause
  · obtain ⟨cause, hfail⟩ := hfail
    have hmeet : meet (r.fate r.calls) (.openImage path) r.machine =
        some (.error (.io cause), r.machine) := by rw [hfail]; rfl
    exact ⟨_, reply_of_meet hmeet, harena, fun hu => absurd hfail (hu.calls _ cause)⟩
  have hpass : meet (r.fate r.calls) (.openImage path) r.machine =
      Machine.reply (.openImage path) r.machine :=
    meet_of_not_fail hfail (fun k hk => by cases hk) r.machine
  cases hopen : r.machine.volume.openFile path with
  | error e =>
    rw [Machine.reply, hopen] at hpass
    refine ⟨_, reply_of_meet hpass, harena, fun hu => ?_⟩
    rw [Volume.openFile, hu.opening] at hopen
    cases hfile : r.machine.volume.files.lookup path with
    | some content => simp only [hfile] at hopen; cases hopen
    | none =>
      simp only [hfile] at hopen
      exact ⟨rfl, (Except.error.inj hopen).symm⟩
  | ok f =>
    rw [Machine.reply, hopen] at hpass
    refine ⟨_, reply_of_meet hpass, ?_⟩
    rw [Volume.openFile] at hopen
    cases hno : r.machine.volume.failOpen with
    | some e => simp only [hno] at hopen; cases hopen
    | none =>
      cases hfile : r.machine.volume.files.lookup path with
      | none => simp only [hno, hfile] at hopen; cases hopen
      | some content =>
        have hcontent := Volume.content_of_lookup hfile
        simp only [hno, hfile, Except.ok.injEq] at hopen
        subst hopen
        exact ⟨Option.some_ne_none content, ⟨_, rfl, hcontent.symm, rfl, fun hu => hu.file⟩,
          harena, hfailure, rfl, fun hu => hu.calls, fun hu => hu.buffers⟩

end Rig

end ElfBoot.Host
