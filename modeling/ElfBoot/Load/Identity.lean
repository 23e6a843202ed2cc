import ElfBoot.Image.Identity
import ElfBoot.Load.ReadExact

/-!
# Reading and judging the identity block

`Load.readIdentity` reads the first sixteen bytes of the open image and leaves the read position
behind them.  `Load.validateIdentity` is `Identity.validate` with a report of what was found.
-/

set_option autoImplicit false

namespace ElfBoot

/-- What is reported about an identity block, in order. -/
def Identity.findings (ident : Identity) : List Notice :=
  if ident.magic ≠ Identity.elfMagic then [.badMagic]
  else match Width.ofIdent ident.width with
    | none => [.badWidth ident.width]
    | some w =>
      .foundWidth w :: if ident.encoding ≠ Identity.littleEndian then [.badEncoding] else []

namespace Load

/-- Reads the identity block from the start of the open image. -/
def readIdentity : Load Identity := do
  note .seekingIdentity
  settleIo .seekIdentityFailed (← ask (.seek 0))
  let bytes ← reporting .readIdentityFailed (readExact identitySize)
  expect (Identity.ofBytes? bytes)

/-- The width of an image that can be loaded, or why it cannot be. -/
def validateIdentity (ident : Identity) : Load Width := do
  notes ident.findings
  check ident.validate

end Load

end ElfBoot
