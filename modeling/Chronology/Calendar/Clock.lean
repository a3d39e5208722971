import Chronology.Calendar.Error

/-!
# Times of day

A time of day is an hour, a minute and a second; it corresponds to the seconds since midnight,
from `0` to `86399`.
-/

namespace Chronology

/-- A time of day to the second. -/
structure ClockTime where
  hour : Nat
  minute : Nat
  second : Nat
deriving DecidableEq, Repr

namespace ClockTime

/-- Seconds in a day. -/
def secondsPerDay : Nat := 86400

/-- Seconds since midnight; the fields are not checked. -/
def seconds (t : ClockTime) : Nat := t.hour * 3600 + t.minute * 60 + t.second

/-- The time of day that lies `seconds` seconds after midnight, for `0 ≤ seconds < 86400`. -/
def ofSeconds (seconds : Int) : Except CalendarError ClockTime :=
  if seconds < 0 ∨ secondsPerDay ≤ seconds then .error (.invalidSecondOfDay seconds)
  else
    let s := seconds.toNat
    .ok ⟨s / 3600, s % 3600 / 60, s % 60⟩

end ClockTime

end Chronology
