import Chronology.Pattern.Error
import Chronology.Text.Decimal

/-!
# Domain errors

The ways a domain, a time or a range can be refused, each with its text and kind. A pattern or
calendar error met on the way is kept as it is, with its own text and kind.
-/

namespace Chronology

/-- The fields of a time that are checked against a limit, with the names the messages use. -/
inductive TimeField where
  | hour
  | minute
  | second
  | fraction
  | offsetHours
  | offsetMinutes
  | offsetSeconds
  | offsetFraction
deriving DecidableEq, Repr

/-- The name of the field in messages. -/
def TimeField.name : TimeField → String
  | .hour => "hour"
  | .minute => "minute"
  | .second => "second"
  | .fraction => "fraction"
  | .offsetHours => "offset hours"
  | .offsetMinutes => "offset minutes"
  | .offsetSeconds => "offset seconds"
  | .offsetFraction => "offset fraction"

/-- Why a text is not a time. -/
inductive ScanFailure where
  /-- The text follows neither written form of a time. -/
  | noMatch
  /-- A year of more than four digits is written without a leading plus sign. -/
  | longYearWithoutPlus
  /-- The year does not fit a signed 64-bit word. -/
  | yearTooLarge
deriving DecidableEq, Repr

/-- The reason a message gives for the failure. -/
def ScanFailure.reason : ScanFailure → String
  | .noMatch => "does not match the time grammar"
  | .longYearWithoutPlus => "years beyond four digits need a leading \x27+\x27"
  | .yearTooLarge => "year does not fit in 64 bits"

/-- Why a domain, a time or a range refused a value. -/
inductive TimeError where
  /-- The sub-period pattern divides periods of another unit than the domain's base. -/
  | subdivisionMismatch (subBase base : Resolution)
  /-- A field of a time is above its limit. -/
  | invalidField (field : TimeField) (value : Int)
  /-- A leap second is written on a day other than 30 June or 31 December. -/
  | invalidLeapSecond (year : Int) (month day : Nat)
  /-- The label already names a domain of another layout. -/
  | labelConflict (label : String)
  /-- Two ranges with a gap between them have no union. -/
  | disjointRanges (left right : String)
  /-- A domain coarser than a day has no weekdays. -/
  | coarseDayOfWeek (resolution : Resolution)
  /-- The index lies outside `[0, max]`. -/
  | outOfRange (index max : Int)
  /-- The offset from the domain's origin does not fit a signed 32-bit word. -/
  | offsetOutOfRange (offset : Int)
  /-- The time lies before 1 January of year zero. -/
  | beforeCalendar
  /-- The result left the signed 64-bit range. -/
  | overflow (computation : Computation)
  /-- The text is not a time. -/
  | parse (input : String) (failure : ScanFailure)
  /-- Two times or ranges belong to different domains, named by their displays. -/
  | domainMismatch (left right : String)
  /-- A pattern refused a value. -/
  | pattern (e : PatternError)
  /-- A calendar computation refused its arguments. -/
  | calendar (e : CalendarError)
deriving DecidableEq, Repr

namespace TimeError

/-- The text of the error; pattern and calendar errors keep their own. -/
def message : TimeError → String
  | subdivisionMismatch subBase base =>
    "invalid domain definition: sub-period pattern subdivides " ++ subBase.name ++
      " periods but the base unit is " ++ base.name
  | invalidField field value => "invalid " ++ field.name ++ s!": {value}"
  | invalidLeapSecond year month day =>
    "leap second not allowed on " ++ Text.padInt 4 year ++ "-" ++ Text.padNat 2 month ++ "-" ++
      Text.padNat 2 day
  | labelConflict label => "label " ++ Text.quoted label ++ " already names a different domain"
  | disjointRanges left right =>
    "ranges " ++ left ++ " and " ++ right ++ " are neither overlapping nor adjacent"
  | coarseDayOfWeek resolution => "day of week is undefined at " ++ resolution.name ++ " resolution"
  | outOfRange index max => s!"index {index} is outside the domain bounds [0, {max}]"
  | offsetOutOfRange offset => s!"offset {offset} does not fit in a 32-bit integer"
  | beforeCalendar => "time lies before the start of the calendar"
  | overflow computation => "arithmetic overflow in " ++ computation.description
  | parse input failure => "cannot parse " ++ Text.quoted input ++ ": " ++ failure.reason
  | domainMismatch left right => "domain mismatch: " ++ left ++ " vs " ++ right
  | pattern e => e.message
  | calendar e => e.message

/-- The kind of the error; pattern and calendar errors keep their own. -/
def kind : TimeError → ErrorKind
  | outOfRange _ _ | offsetOutOfRange _ | beforeCalendar => .outOfRange
  | overflow _ => .overflow
  | parse _ _ => .parseFailure
  | domainMismatch _ _ => .domainMismatch
  | pattern e => e.kind
  | calendar e => e.kind
  | _ => .invalidArgument

end TimeError

/-- A calendar computation inside a domain computation. -/
def liftCal {α : Type} (x : Except CalendarError α) : Except TimeError α :=
  x.mapError .calendar

/-- A pattern computation inside a domain computation. -/
def liftPat {α : Type} (x : Except PatternError α) : Except TimeError α :=
  x.mapError .pattern

end Chronology
