import ElfBoot.Host.Machine
import ElfBoot.Load.Image

/-!
# Sessions on a machine

A session drives a machine step by step: files come and go, an open file is identified, its
headers are read, its table is planned and placed, and memory is reserved, changed and looked at.
What one step finds out, the width of the image and its program header table, is kept for later
ones.

* `Session.Step`, `Session.Answer` — what can be done, and what comes back.
* `Session.step` — one step: the next state, the answer and the notices.
* `Session.play` — steps in order.
-/

set_option autoImplicit false

namespace ElfBoot.Host

/-- A machine and what is known about the image that is open on it. -/
structure Session where
  machine : Machine
  width : Option Width := none
  table : Option Table := none

namespace Session

inductive Step where
  /-- Put an image at a path of the volume. -/
  | insert (path : String) (content : List UInt8)
  /-- Make files opened on the volume from now on fail to read at an offset. -/
  | failReadAt (offset : Nat)
  /-- Make files opened on the volume from now on fail to close. -/
  | failClose
  | openPath (path : String)
  /-- Make a file that is on no volume the open one. -/
  | useFile (file : File)
  | close
  | seek (offset : Nat)
  | read (len : Nat)
  | readExact (len : Nat)
  | identify
  | headers
  | plan
  | placeTable
  | placeEntry (index : Nat)
  | load (path : String) (listing : Bool)
  | loadEntry (path : String)
  | occupy (range : PageRange)
  | reserve (address pages : Nat)
  | write (address : Nat) (bytes : List UInt8)
  | zero (address len : Nat)
  | peek (address len : Nat)
  | reservations

inductive Answer where
  | ok
  | failed (error : LoadError)
  | fault
  | noFile
  | noTable
  /-- There is no such entry. -/
  | absent
  | bytes (content : List UInt8)
  | width (found : Width)
  | headers (found : Headers)
  | plan (made : Plan)
  | count (placed : Nat)
  | image (loaded : LoadedImage)
  | entry (address : Nat)
  | ranges (reserved : List PageRange)

/-- The state after a step, its answer and its notices. -/
structure Result where
  session : Session
  answer : Answer
  notices : List Notice := []

variable {α : Type}

/-- Runs a loading procedure; what it ends with goes into the next state and into
the answer. -/
def perform (s : Session) (p : Load α) (keep : α → Session → Session × Answer) : Result :=
  let r := s.machine.run p
  let s := { s with machine := r.state }
  match r.outcome with
  | .fault => ⟨s, .fault, r.notices⟩
  | .done (.error e) => ⟨s, .failed e, r.notices⟩
  | .done (.ok a) =>
    let p := keep a s
    ⟨p.1, p.2, r.notices⟩

/-- Runs a loading procedure that leaves nothing to keep. -/
def answer (s : Session) (p : Load α) (describe : α → Answer) : Result :=
  s.perform p fun a s => (s, describe a)

/-- Runs a procedure with a file of its own, leaving the open file alone. -/
def aside (s : Session) (p : Load α) (describe : α → Answer) : Result :=
  let r := { s with machine := { s.machine with file := none } }.answer p describe
  let machine := { r.session.machine with file := s.machine.file }
  { r with session := { r.session with machine } }

/-- A step that needs an open file. -/
def needFile (s : Session) (result : Result) : Result :=
  if s.machine.file.isSome then result else ⟨s, .noFile, []⟩

/-- A step that needs an open file and a table, in that order. -/
def needTable (s : Session) (result : Table → Result) : Result :=
  s.needFile (match s.table with
    | some t => result t
    | none => ⟨s, .noTable, []⟩)

/-- Changes the arena. -/
def mapArena (s : Session) (f : Arena → Arena) : Session :=
  { s with machine := { s.machine with
      memory := { s.machine.memory with arena := s.machine.memory.arena.map f } } }

/-- Changes the volume. -/
def mapVolume (s : Session) (f : Volume → Volume) : Session :=
  { s with machine := { s.machine with volume := f s.machine.volume } }

def step (s : Session) : Step → Result
  | .insert path content => ⟨s.mapVolume (·.insert path content), .ok, []⟩
  | .failReadAt offset =>
    ⟨s.mapVolume fun v => { v with traits := { v.traits with failRead := some offset } }, .ok, []⟩
  | .failClose =>
    ⟨s.mapVolume fun v => { v with traits := { v.traits with failClose := true } }, .ok, []⟩
  | .openPath path => s.answer (Load.demand (.openImage path) id) fun () => .ok
  | .useFile file => ⟨{ s with machine := { s.machine with file := some file } }, .ok, []⟩
  | .close => s.needFile (s.answer (Load.demand .close fun a => a.mapError .io) fun () => .ok)
  | .seek offset =>
    s.needFile (s.answer (Load.demand (.seek offset) fun a => a.mapError .io) fun () => .ok)
  | .read len =>
    s.needFile (s.answer (Load.demand (.read len) fun a => a.mapError .io) fun c => .bytes c.val)
  | .readExact len => s.needFile (s.answer (Load.readExact len) .bytes)
  | .identify =>
    s.needFile (s.perform (do Load.validateIdentity (← Load.readIdentity))
      fun w s => ({ s with width := some w }, .width w))
  | .headers =>
    s.needFile (s.perform (Load.readHeaders s.width)
      fun h s => ({ s with table := some h.table }, .headers h))
  | .plan => s.needTable fun t => s.answer (Load.makePlan t) .plan
  | .placeTable => s.needTable fun t => s.answer (Load.placeTable t) .count
  | .placeEntry index =>
    s.needTable fun t =>
      match t.get? index with
      | none => ⟨s, .absent, []⟩
      | some h =>
        s.answer (do Load.placeSegment (← Load.checkSegment index h)) fun () => .ok
  | .load path listing => s.aside (Load.image path listing) .image
  | .loadEntry path => s.aside (Load.entryPoint path) .entry
  | .occupy range => ⟨s.mapArena (·.occupy range), .ok, []⟩
  | .reserve address pages => s.answer (Load.demand (.reserve address pages) id) fun () => .ok
  | .write address bytes => s.answer (Load.demand (.write address bytes) id) fun () => .ok
  | .zero address len => s.answer (Load.demand (.zero address len) id) fun () => .ok
  | .peek address len =>
    match s.machine.memory.arena.bind (·.peek? address len) with
    | some bytes => ⟨s, .bytes bytes, []⟩
    | none => ⟨s, .fault, []⟩
  | .reservations =>
    ⟨s, .ranges ((s.machine.memory.arena.map (·.reserved)).getD []), []⟩

/-- The results of steps taken in order. -/
def play (s : Session) : List Step → List Result
  | [] => []
  | step :: rest =>
    let r := s.step step
    r :: play r.session rest

end Session

end ElfBoot.Host
