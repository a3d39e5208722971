import Chronology.Calendar.Error
import Chronology.Text.Blank

/-!
# Resolutions

A resolution is the length of the smallest step a domain counts: from years down to nanoseconds.
Resolutions are ordered from the coarsest to the finest, and those finer than a second split
a second into a power of ten of units.
-/

namespace Chronology

/-- The units a time can be counted in, coarsest first. -/
inductive Resolution where
  | year
  | month
  | day
  | hour
  | min
  | sec
  | msec
  | usec
  | nsec
deriving DecidableEq, Repr

namespace Resolution

/-- Position from the coarsest: `year` is 0 and `nsec` is 8. -/
def level : Resolution → Nat
  | year => 0
  | month => 1
  | day => 2
  | hour => 3
  | min => 4
  | sec => 5
  | msec => 6
  | usec => 7
  | nsec => 8

/-- One resolution is below another when it is coarser. -/
instance : LT Resolution := ⟨fun a b => a.level < b.level⟩

instance (a b : Resolution) : Decidable (a < b) := inferInstanceAs (Decidable (a.level < b.level))

/-- The short name of the resolution. -/
def name : Resolution → String
  | year => "year"
  | month => "month"
  | day => "day"
  | hour => "hour"
  | min => "min"
  | sec => "sec"
  | msec => "msec"
  | usec => "usec"
  | nsec => "nsec"

/-- Digits after the seconds when a time of this resolution is written. -/
def fractionDigits : Resolution → Nat
  | msec => 3
  | usec => 6
  | nsec => 9
  | _ => 0

/-- How many units make a second, for a second and the resolutions finer than it. -/
def unitsPerSecond : Resolution → Option Nat
  | sec => some 1
  | msec => some 1000
  | usec => some 1000000
  | nsec => some 1000000000
  | _ => none

/-- The resolution a lowercase name stands for: the short names, and the long names of the
units below an hour. -/
def ofName? : String → Option Resolution
  | "year" => some year
  | "month" => some month
  | "day" => some day
  | "hour" => some hour
  | "min" => some min
  | "minute" => some min
  | "sec" => some sec
  | "second" => some sec
  | "msec" => some msec
  | "millisecond" => some msec
  | "usec" => some usec
  | "microsecond" => some usec
  | "nsec" => some nsec
  | "nanosecond" => some nsec
  | _ => none

/-- Reads a resolution, ignoring blanks at the ends and the case of ASCII letters. The error
repeats the text as given. -/
def parse (s : String) : Except CalendarError Resolution :=
  match ofName? (Text.lowerAscii (Text.trimBlank s)) with
  | some r => .ok r
  | none => .error (.invalidResolution s)

theorem ofName?_name (r : Resolution) : ofName? r.name = some r := by
  cases r <;> rfl

end Resolution

end Chronology
