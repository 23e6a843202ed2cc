import ElfBoot.Host.Arena
import ElfBoot.Host.File
import ElfBoot.Load.ReadExact

/-!
# A machine in memory

A machine joins the collaborators a load needs: a volume, the file that is open, the physical
memory and a scratch allocator, which is a predicate on lengths.

* `Memory` — an arena, or a memory that grants everything and keeps nothing; one call on it can
  be made to fail.
* `Machine` — the state of all collaborators.
* `Machine.handler` — how they answer a program's calls.
-/

set_option autoImplicit false

namespace ElfBoot.Host

/-! ## Memory with an injected failure -/

/-- The operations on memory. -/
inductive MemoryCall where
  | reserve
  | write
  | zero
  deriving DecidableEq, Repr

/-- Makes the `nth` call of a kind, counted from one, fail without reaching the memory. -/
structure MemoryFault where
  call : MemoryCall
  nth : Nat
  error : LoadError
  deriving DecidableEq, Repr

/-- Physical memory: an arena, or none, in which case every call succeeds. -/
structure Memory where
  arena : Option Arena := none
  failure : Option MemoryFault := none
  /-- The calls so far. -/
  calls : List MemoryCall := []

namespace Memory

/-- The error injected into a call that is about to be made. -/
def injected? (m : Memory) (call : MemoryCall) : Option LoadError :=
  match m.failure with
  | some f => if f.call = call ∧ m.calls.count call + 1 = f.nth then some f.error else none
  | none => none

/-- Makes a call on the arena, unless it was made to fail. -/
def apply (m : Memory) (call : MemoryCall)
    (operation : Arena → Option (Except LoadError Unit × Arena)) :
    Option (Except LoadError Unit × Memory) :=
  let counted := { m with calls := call :: m.calls }
  match m.injected? call, m.arena with
  | some e, _ => some (.error e, counted)
  | none, none => some (.ok (), counted)
  | none, some a => (operation a).map fun p => (p.1, { counted with arena := some p.2 })

end Memory

/-! ## The machine -/

/-- All collaborators of a load. -/
structure Machine where
  volume : Volume := {}
  /-- The open file, if there is one. -/
  file : Option File := none
  memory : Memory := {}
  /-- Which lengths the scratch allocator grants. -/
  grantsScratch : Nat → Bool := fun len => decide (len < scratchLimit)

namespace Machine

/-- Runs an operation of the open file; without one it is a fault. -/
def onFile {α : Type} (m : Machine) (operation : File → α × File) : Option (α × Machine) :=
  m.file.map fun f =>
    let p := operation f
    (p.1, { m with file := some p.2 })

/-- Closes the open file, which is gone afterwards even if closing fails. -/
def closeFile (m : Machine) : Option (Except IoError Unit × Machine) :=
  m.file.map fun f =>
    let answer := f.close
    let closed := if answer.isOk && f.counted then m.volume.closed + 1 else m.volume.closed
    (answer, { m with file := none, volume := { m.volume with closed } })

/-- Makes a call on the memory. -/
def onMemory (m : Machine) (call : MemoryCall)
    (operation : Arena → Option (Except LoadError Unit × Arena)) :
    Option (Except LoadError Unit × Machine) :=
  (m.memory.apply call operation).map fun p => (p.1, { m with memory := p.2 })

/-- How a machine answers. -/
def reply : (c : Call) → Machine → Option (c.Answer × Machine)
  | .openImage path, m =>
    match m.volume.openFile path with
    | .ok f => some (.ok (), { m with file := some f })
    | .error e => some (.error e, m)
  | .seek offset, m => m.onFile (File.seek offset)
  | .read len, m => m.onFile (File.read len)
  | .close, m => m.closeFile
  | .reserve address pages, m => m.onMemory .reserve fun a => a.reserve address pages
  | .write address bytes, m => m.onMemory .write fun a => a.write address bytes
  | .zero address len, m => m.onMemory .zero fun a => a.zero address len
  | .scratch len, m => some (m.grantsScratch len, m)

/-- The machine as the collaborators of a program. -/
def handler : Handler Machine where
  reply c m := (reply c m).map fun p => { answer := p.1, state := p.2 }

/-- Runs a loading procedure on a machine. -/
def run {α : Type} (m : Machine) (p : Load α) : Run Machine (Except LoadError α) :=
  Program.run handler p.run m

end Machine

end ElfBoot.Host
