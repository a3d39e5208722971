import Chronology.Calendar.Error
import Chronology.Calendar.Resolution
import Chronology.Calendar.Weekday
import Chronology.Text.Decimal

/-!
# Pattern errors

The ways a cycle or a sub-period pattern can be refused when built, and the ways a time can fail
to go through one. A calendar error met on the way is kept as it is.
-/

namespace Chronology

/-- Why a cycle or a sub-period pattern refused a value. -/
inductive PatternError where
  /-- A cycle needs at least one position. -/
  | emptyCycle
  /-- A cycle needs at least one ON position. -/
  | inactiveCycle (length : Nat)
  /-- Only times from zero on go through a cycle. -/
  | negativeTime (time : Int)
  /-- The time falls on an OFF position of the cycle. -/
  | offCycle (time : Int)
  /-- The sub-period value is not one of the pattern's, and no adjustment was asked for. -/
  | missingSubPeriod (period value : Int)
  /-- The position names a sub-period that this base period does not have. -/
  | deadSubPeriod (position : Nat)
  /-- The pattern has fewer positions. -/
  | positionOutOfRange (position size : Nat)
  /-- The result left the signed 64-bit range. -/
  | overflow (computation : Computation)
  /-- The units cannot be paired as base period and sub-period. -/
  | unsupportedPairing (base sub : Resolution)
  /-- A pattern needs at least one position. -/
  | emptyRanks
  /-- The rank is not a sub-period of the base period. -/
  | invalidRank (rank : Int) (unit : Resolution)
  /-- The rank is given twice. -/
  | duplicateRank (rank : Int)
  /-- The ranked weekday is given twice. -/
  | duplicateDayRank (weekday : Weekday) (rank : Int)
  /-- In this period the ranked weekdays do not fall in the order they are listed in. -/
  | unorderedDayRanks (year : Int) (month : Nat)
  /-- A calendar computation refused its arguments. -/
  | calendar (e : CalendarError)
deriving DecidableEq, Repr

namespace PatternError

/-- The text of the error; a calendar error keeps its own. -/
def message : PatternError → String
  | emptyCycle => "cycle pattern is empty"
  | inactiveCycle length => s!"cycle pattern of length {length} has no ON position"
  | negativeTime time => s!"negative time {time} cannot be mapped through a cycle"
  | offCycle time => s!"time {time} falls on an OFF position of the cycle"
  | missingSubPeriod period value =>
    s!"sub-period value {value} is not admissible in base period {period}"
  | deadSubPeriod position => s!"sub-period position {position} does not exist in this base period"
  | positionOutOfRange position size =>
    s!"sub-period position {position} is out of range (size {size})"
  | overflow computation => "arithmetic overflow in " ++ computation.description
  | unsupportedPairing base sub =>
    "unsupported sub-period pairing: " ++ base.name ++ " -> " ++ sub.name
  | emptyRanks => "sub-period pattern has no positions"
  | invalidRank rank unit => "invalid " ++ unit.name ++ s!" position: {rank}"
  | duplicateRank rank => s!"duplicate sub-period position: {rank}"
  | duplicateDayRank weekday rank => "duplicate day ranking: " ++ weekday.name ++ s!" #{rank}"
  | unorderedDayRanks year month =>
    s!"day rankings are out of order in period {year}-" ++ Text.padNat 2 month
  | calendar e => e.message

/-- The kind of the error: times that a pattern leaves out are unreachable, and a calendar error
keeps its kind. -/
def kind : PatternError → ErrorKind
  | offCycle _ | missingSubPeriod _ _ | deadSubPeriod _ => .unreachableTime
  | overflow _ => .overflow
  | unsupportedPairing _ _ => .unsupportedPairing
  | calendar e => e.kind
  | _ => .invalidArgument

end PatternError

/-- A calendar computation inside a pattern computation. -/
def liftCalendar {α : Type} (x : Except CalendarError α) : Except PatternError α :=
  x.mapError .calendar

end Chronology
