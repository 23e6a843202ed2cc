import ElfBoot.Program

/-!
# Reading an exact number of bytes

A read may deliver fewer bytes than were asked for.  Reading exactly means to go on asking for
the bytes still missing until all are there, a read fails, or a read delivers nothing although
bytes are missing.

* `Load.fill` — the bytes delivered, together with how it ended; a failure keeps the bytes that
  came before it.
* `Load.readInto` — the same over a buffer, whose bytes past the delivered ones stay.
* `Load.readExact` — the bytes, or the error alone.
* `Load.scratch` — room for bytes about to be read, from an allocator that may refuse;
  `scratchBuffer` is what it grants.
-/

set_option autoImplicit false

namespace ElfBoot

/-- Scratch buffers are to be had below `2 ^ 47` bytes. -/
def scratchLimit : Nat := 0x800000000000

/-- A fresh scratch buffer: `len` zeros. -/
def scratchBuffer (len : Nat) : Array UInt8 := Array.replicate len 0

namespace Load

/-- Reads until `missing` is zero.  `delivered` holds the bytes so far, last one first. -/
def fillMore (expected missing : Nat) (delivered : List UInt8) :
    Program (List UInt8 × Except LoadError Unit) :=
  if _h : missing = 0 then .done (delivered.reverse, .ok ())
  else .call (.read missing) fun
    | .error e => .done (delivered.reverse, .error (.io e))
    | .ok ⟨[], _⟩ =>
      .done (delivered.reverse, .error (.io (.shortRead expected (expected - missing))))
    | .ok ⟨b :: bs, _⟩ =>
      fillMore expected (missing - (bs.length + 1)) (bs.reverse ++ b :: delivered)
termination_by missing

/-- Reads `len` bytes.  The first part of the result is what was delivered, complete or not. -/
def fill (len : Nat) : Program (List UInt8 × Except LoadError Unit) := fillMore len len []

/-- Reads as many bytes as the buffer holds and puts them over its front. -/
def readInto (buffer : List UInt8) : Program (List UInt8 × Except LoadError Unit) := do
  let (delivered, ending) ← fill buffer.length
  return (delivered ++ buffer.drop delivered.length, ending)

/-- Reads `len` bytes or stops with an error. -/
def readExact (len : Nat) : Load (List UInt8) :=
  ExceptT.mk do
    let (delivered, ending) ← fill len
    return ending.map fun _ => delivered

/-- Obtains a scratch buffer of `len` bytes. -/
def scratch (len : Nat) : Load Unit := do
  if ← ask (.scratch len) then pure () else throw (.allocation (.buffer len))

end Load

end ElfBoot
