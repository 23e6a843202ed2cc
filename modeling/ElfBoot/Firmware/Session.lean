import ElfBoot.Firmware.Model

/-!
# Sessions through the firmware

A session takes steps on the volume of the small firmware and on its memory: whole files are
read, one file can be open at a time, images are loaded, and memory is reserved, changed and
looked at.

* `Session.Step`, `Session.Answer` — what can be done, and what comes back.
* `Session.step`, `Session.play` — one step, and steps in order.
-/

set_option autoImplicit false

namespace ElfBoot.Firmware

/-- A firmware and a boot through it. -/
structure Session where
  profile : Profile
  model : Model

namespace Session

inductive Step where
  /-- Read a whole file. -/
  | fetch (path : String)
  | openPath (path : String)
  | size
  | seek (offset : Nat)
  | read (len : Nat)
  | readExact (len : Nat)
  | close
  | load (path : String) (listing : Bool)
  | reserve (address pages : Nat)
  | write (address : Nat) (bytes : List UInt8)
  | zero (address len : Nat)
  | peek (address len : Nat)

inductive Answer where
  | ok
  | failed (error : LoadError)
  | fault
  | noFile
  /-- There is no such file. -/
  | absent
  | bytes (content : List UInt8)
  | size (bytes : Nat)
  | image (loaded : LoadedImage)

/-- The state after a step, its answer and its notices. -/
structure Result where
  session : Session
  answer : Answer
  notices : List Notice := []

variable {α : Type}

/-- What comes of a run. -/
def conclude (s : Session) (r : Run Model (Except LoadError α)) (describe : α → Answer) : Result :=
  let s := { s with model := r.state }
  match r.outcome with
  | .fault => ⟨s, .fault, r.notices⟩
  | .done (.error e) => ⟨s, .failed e, r.notices⟩
  | .done (.ok a) => ⟨s, describe a, r.notices⟩

/-- What comes of a run with a file of its own, leaving the open file alone. -/
def aside (s : Session) (r : Model → Run Model (Except LoadError α)) (describe : α → Answer) :
    Result :=
  let result := s.conclude (r { s.model with file := none }) describe
  let model := { result.session.model with file := s.model.file }
  { result with session := { s with model } }

/-- Runs a loading procedure. -/
def perform (s : Session) (p : Load α) (describe : α → Answer) : Result :=
  s.conclude (s.model.run s.profile.services p) describe

/-- A step that needs an open file. -/
def needFile (s : Session) (result : Result) : Result :=
  if s.model.file.isSome then result else ⟨s, .noFile, []⟩

/-- Asks for the size of the open file. -/
def fileSize (s : Session) : Result :=
  match s.model.onFile (Boot.size s.profile.services) with
  | none => ⟨s, .noFile, []⟩
  | some (.ok n, model) => ⟨{ s with model }, .size n, []⟩
  | some (.error e, model) => ⟨{ s with model }, .failed (.io e), []⟩

def step (s : Session) : Step → Result
  | .fetch path =>
    s.aside (fun m => m.readFile s.profile.services path) fun
      | some bytes => .bytes bytes
      | none => .absent
  | .openPath path => s.perform (Load.demand (.openImage path) id) fun () => .ok
  | .size => s.fileSize
  | .seek offset =>
    s.needFile (s.perform (Load.demand (.seek offset) fun a => a.mapError .io) fun () => .ok)
  | .read len =>
    s.needFile (s.perform (Load.demand (.read len) fun a => a.mapError .io) fun c => .bytes c.val)
  | .readExact len => s.needFile (s.perform (Load.readExact len) .bytes)
  | .close => s.needFile (s.perform (Load.demand .close fun a => a.mapError .io) fun () => .ok)
  | .load path listing =>
    s.aside (fun m => m.run s.profile.services (Load.image path listing)) .image
  | .reserve address pages => s.perform (Load.demand (.reserve address pages) id) fun () => .ok
  | .write address bytes => s.perform (Load.demand (.write address bytes) id) fun () => .ok
  | .zero address len => s.perform (Load.demand (.zero address len) id) fun () => .ok
  | .peek address len =>
    match s.model.peek? address len with
    | some bytes => ⟨s, .bytes bytes, []⟩
    | none => ⟨s, .fault, []⟩

/-- The results of steps taken in order. -/
def play (s : Session) : List Step → List Result
  | [] => []
  | step :: rest =>
    let r := s.step step
    r :: play r.session rest

end Session

end ElfBoot.Firmware
