/-!
# Kinds of failure

Every failure of the library belongs to one of a few kinds, and a caller that only needs to know
what went wrong in general reads the kind's key. Each error type of the library maps its
constructors onto these kinds.
-/

namespace Chronology

/-- The broad classes of failure. -/
inductive ErrorKind where
  /-- A value that the operation does not accept. -/
  | invalidArgument
  /-- An index or offset outside the bounds of a domain or of the calendar. -/
  | outOfRange
  /-- A time that the domain's pattern leaves out. -/
  | unreachableTime
  /-- A result outside the signed 64-bit range. -/
  | overflow
  /-- A sub-period pattern over units that cannot be paired. -/
  | unsupportedPairing
  /-- Text that is not a time. -/
  | parseFailure
  /-- Two times or ranges of different domains. -/
  | domainMismatch
deriving DecidableEq, Repr

/-- The key that names the kind. -/
def ErrorKind.key : ErrorKind → String
  | .invalidArgument => "invalid_argument"
  | .outOfRange => "out_of_range"
  | .unreachableTime => "unreachable_time"
  | .overflow => "overflow"
  | .unsupportedPairing => "unsupported_pairing"
  | .parseFailure => "parse_failure"
  | .domainMismatch => "domain_mismatch"

end Chronology
