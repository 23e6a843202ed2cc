/-!
# Firmware statuses

A status is the 64-bit number a firmware service answers with.  Zero is success, bit 63 marks an
error, and any other number is a warning; callers of this library take every status but zero for
a failure.
-/

set_option autoImplicit false

namespace ElfBoot

/-- The number a firmware service answers with. -/
structure Status where
  code : UInt64
  deriving DecidableEq, Repr, Inhabited

namespace Status

/-- The error status with the given number. -/
def error (number : UInt64) : Status := ⟨number ||| 0x8000000000000000⟩

def success : Status := ⟨0⟩
def invalidParameter : Status := error 2
def unsupported : Status := error 3
def deviceError : Status := error 7
def outOfResources : Status := error 9
def notFound : Status := error 14
def incompatibleVersion : Status := error 25

def isSuccess (s : Status) : Bool := s.code == 0

/-- Names of the warning statuses, in order of their numbers; success is number zero. -/
def warningNames : List String :=
  ["SUCCESS", "WARN_UNKNOWN_GLYPH", "WARN_DELETE_FAILURE", "WARN_WRITE_FAILURE",
   "WARN_BUFFER_TOO_SMALL", "WARN_STALE_DATA", "WARN_FILE_SYSTEM", "WARN_RESET_REQUIRED"]

/-- Names of the error statuses by number. -/
def errorNames : List (Nat × String) :=
  [(1, "LOAD_ERROR"), (2, "INVALID_PARAMETER"), (3, "UNSUPPORTED"), (4, "BAD_BUFFER_SIZE"),
   (5, "BUFFER_TOO_SMALL"), (6, "NOT_READY"), (7, "DEVICE_ERROR"), (8, "WRITE_PROTECTED"),
   (9, "OUT_OF_RESOURCES"), (10, "VOLUME_CORRUPTED"), (11, "VOLUME_FULL"), (12, "NO_MEDIA"),
   (13, "MEDIA_CHANGED"), (14, "NOT_FOUND"), (15, "ACCESS_DENIED"), (16, "NO_RESPONSE"),
   (17, "NO_MAPPING"), (18, "TIMEOUT"), (19, "NOT_STARTED"), (20, "ALREADY_STARTED"),
   (21, "ABORTED"), (22, "ICMP_ERROR"), (23, "TFTP_ERROR"), (24, "PROTOCOL_ERROR"),
   (25, "INCOMPATIBLE_VERSION"), (26, "SECURITY_VIOLATION"), (27, "CRC_ERROR"),
   (28, "END_OF_MEDIA"), (31, "END_OF_FILE"), (32, "INVALID_LANGUAGE"),
   (33, "COMPROMISED_DATA"), (34, "IP_ADDRESS_CONFLICT"), (35, "HTTP_ERROR")]

/-- The name of a status, or its number in decimal if it has none. -/
def name (s : Status) : String :=
  let n := s.code.toNat
  let known :=
    if n < 0x8000000000000000 then warningNames[n]? else errorNames.lookup (n - 0x8000000000000000)
  known.getD s!"Status({n})"

end Status

end ElfBoot
