import Chronology.Word
import Chronology.ErrorKind
import Chronology.Text.Quoted

/-!
# Calendar errors

The ways a date, a clock time, a weekday or a resolution can be refused, and the text of each
refusal. Names that were not recognised are repeated between quotes (`Text.quoted`).
-/

namespace Chronology

/-- Why a calendar computation refused its arguments. -/
inductive CalendarError where
  /-- Years before year zero are outside the calendar. -/
  | invalidYear (year : Int)
  /-- Months are numbered from 1 to 12. -/
  | invalidMonth (month : Nat)
  /-- The month has no such day. -/
  | invalidDay (day month maxDay : Nat)
  /-- The year has no such day. -/
  | invalidDayOfYear (dayOfYear max : Nat)
  /-- Day counts start at zero. -/
  | invalidDayCount (days : Int)
  /-- A day has the seconds `0` to `86399`. -/
  | invalidSecondOfDay (seconds : Int)
  /-- Weekday ranks are non-zero and at most `maxRank` away from zero. -/
  | invalidRank (rank : Int) (maxRank : Nat)
  /-- Not the name or number of a weekday. -/
  | invalidWeekday (name : String)
  /-- Not the name of a resolution. -/
  | invalidResolution (name : String)
  /-- The result left the signed 64-bit range. -/
  | overflow (computation : Computation)
deriving DecidableEq, Repr

namespace CalendarError

/-- The text of the error. -/
def message : CalendarError → String
  | invalidYear year => s!"invalid year: {year} (must be >= 0)"
  | invalidMonth month => s!"invalid month: {month} (must be 1..=12)"
  | invalidDay day month maxDay => s!"invalid day: {day} for month {month} (max {maxDay})"
  | invalidDayOfYear dayOfYear max => s!"invalid day of year: {dayOfYear} (max {max})"
  | invalidDayCount days => s!"invalid day count: {days} (must be >= 0)"
  | invalidSecondOfDay seconds => s!"invalid second of day: {seconds} (must be 0..86400)"
  | invalidRank rank maxRank =>
    s!"invalid rank: {rank} (must be non-zero with magnitude <= {maxRank})"
  | invalidWeekday name => "invalid weekday: " ++ Text.quoted name
  | invalidResolution name => "invalid resolution: " ++ Text.quoted name
  | overflow computation => "arithmetic overflow in " ++ computation.description

/-- An overflow is its own kind; every other refusal is an invalid argument. -/
def kind : CalendarError → ErrorKind
  | overflow _ => .overflow
  | _ => .invalidArgument

end CalendarError

end Chronology
