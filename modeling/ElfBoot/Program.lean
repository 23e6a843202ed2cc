import ElfBoot.Notice

/-!
# Programs over collaborators

The loader never reaches for a file system or for memory by itself.  It calls collaborators: a
volume to open an image on, the open image file, the physical memory and the allocator of scratch
buffers.  A loading procedure is therefore a value, a `Program`, that says which call comes next
and what follows each answer.

* `Call`, `Call.Answer` — the calls, and the type of the answer to each.  A read never answers
  with more bytes than were asked for; this is part of the type of its answer.
* `Program` — a procedure: it ends with a value, ends in a fault, reports a notice, or calls.
  A fault stands for a broken computation, such as a sum that leaves the address space; it is no
  error that a collaborator or a check reports.
* `Handler`, `Program.run` — collaborators that keep a state, and the run of a program against
  them: how it ends, the state it leaves, every call with its answer, and every notice.
* `Load` — programs that may stop with a `LoadError`.
-/

set_option autoImplicit false

namespace ElfBoot

/-! ## Calls and answers -/

/-- At most `n` bytes, as a read delivers them. -/
def Chunk (n : Nat) : Type := { bs : List UInt8 // bs.length ≤ n }

/-- What a program asks of its collaborators. -/
inductive Call where
  /-- Open the image at a path; later file calls mean this file. -/
  | openImage (path : String)
  /-- Move the read position of the open file. -/
  | seek (offset : Nat)
  /-- Read up to `len` bytes at the read position. -/
  | read (len : Nat)
  /-- Close the open file. -/
  | close
  /-- Reserve whole pages at a fixed address. -/
  | reserve (address pages : Nat)
  /-- Copy bytes into reserved memory. -/
  | write (address : Nat) (bytes : List UInt8)
  /-- Fill reserved memory with zeros. -/
  | zero (address len : Nat)
  /-- Obtain a scratch buffer. -/
  | scratch (len : Nat)
  deriving DecidableEq, Repr

/-- The answer to a call. -/
abbrev Call.Answer : Call → Type
  | openImage _ => Except LoadError Unit
  | seek _ => Except IoError Unit
  | read len => Except IoError (Chunk len)
  | close => Except IoError Unit
  | reserve _ _ => Except LoadError Unit
  | write _ _ => Except LoadError Unit
  | zero _ _ => Except LoadError Unit
  | scratch _ => Bool

/-- A call together with its answer. -/
structure Event where
  call : Call
  answer : call.Answer

/-! ## Programs -/

/-- A procedure that calls collaborators and ends with a value or in a fault. -/
inductive Program (α : Type) where
  | done (value : α)
  | fault
  | note (notice : Notice) (rest : Program α)
  | call (c : Call) (rest : c.Answer → Program α)

namespace Program

variable {α β : Type}

/-- Continues after the end of a program. -/
def bind : Program α → (α → Program β) → Program β
  | done value, f => f value
  | fault, _ => fault
  | note notice rest, f => note notice (rest.bind f)
  | call c rest, f => call c fun answer => (rest answer).bind f

instance : Monad Program where
  pure := done
  bind := bind

theorem bind_done (p : Program α) : p.bind done = p := by
  induction p with
  | done => rfl
  | fault => rfl
  | note n rest ih => simp [bind, ih]
  | call c rest ih => simp [bind, ih]

theorem bind_assoc {γ : Type} (p : Program α) (f : α → Program β) (g : β → Program γ) :
    (p.bind f).bind g = p.bind fun a => (f a).bind g := by
  induction p with
  | done => rfl
  | fault => rfl
  | note n rest ih => simp [bind, ih]
  | call c rest ih => simp [bind, ih]

instance : LawfulMonad Program :=
  LawfulMonad.mk' Program (fun p => bind_done p) (fun _ _ => rfl) (fun p f g => bind_assoc p f g)

end Program

/-! ## Running a program -/

/-- What a collaborator gives back: its answer, its next state and what it reports. -/
structure Reply (σ : Type) (c : Call) where
  answer : c.Answer
  state : σ
  notices : List Notice := []

/-- Collaborators with a state.  `none` is a fault inside a collaborator. -/
structure Handler (σ : Type) where
  reply : (c : Call) → σ → Option (Reply σ c)

/-- How a run ended. -/
inductive Outcome (α : Type) where
  | done (value : α)
  | fault
  deriving DecidableEq, Repr

/-- Everything that can be seen of a run. -/
structure Run (σ α : Type) where
  outcome : Outcome α
  state : σ
  events : List Event
  notices : List Notice

/-- Runs a program from a state.  A call that faults leaves no event and changes nothing. -/
def Program.run {σ α : Type} (h : Handler σ) : Program α → σ → Run σ α
  | .done value, s => ⟨.done value, s, [], []⟩
  | .fault, s => ⟨.fault, s, [], []⟩
  | .note notice rest, s =>
    let r := rest.run h s
    { r with notices := notice :: r.notices }
  | .call c rest, s =>
    match h.reply c s with
    | none => ⟨.fault, s, [], []⟩
    | some reply =>
      let r := (rest reply.answer).run h reply.state
      { r with events := ⟨c, reply.answer⟩ :: r.events, notices := reply.notices ++ r.notices }

/-! ## Programs that may stop with an error -/

/-- A program that ends with a value or with the error that stopped it. -/
abbrev Load (α : Type) := ExceptT LoadError Program α

namespace Load

variable {α : Type}

/-- Reports a notice. -/
def note (n : Notice) : Load Unit := ExceptT.lift (.note n (.done ()))

/-- Reports notices in order. -/
def notes : List Notice → Load Unit
  | [] => pure ()
  | n :: ns => do note n; notes ns

/-- Stops with the error of a check, or goes on with its value. -/
def check (e : Except LoadError α) : Load α := ExceptT.mk (.done e)

/-- Goes on with a value that a computation must have; without one it is a fault. -/
def expect : Option α → Load α
  | some a => pure a
  | none => ExceptT.mk .fault

/-- Makes a call and gives its answer. -/
def ask (c : Call) : Load c.Answer := ExceptT.lift (.call c .done)

/-- Makes a call and stops with its error, reporting nothing. -/
def demand (c : Call) (value : c.Answer → Except LoadError α) : Load α := do
  check (value (← ask c))

/-- Goes on after a success; reports an error and stops with it. -/
def settle (describe : LoadError → Notice) : Except LoadError α → Load α
  | .ok a => pure a
  | .error e => do note (describe e); throw e

/-- Goes on after a success; reports an error of the image file and stops with it. -/
def settleIo (describe : IoError → Notice) : Except IoError α → Load α
  | .ok a => pure a
  | .error e => do note (describe e); throw (.io e)

/-- Runs a program to its end; if that is an error, reports it and stops with it. -/
def reporting (describe : LoadError → Notice) (p : Load α) : Load α :=
  ExceptT.mk do (settle describe (← p.run)).run

end Load

end ElfBoot
