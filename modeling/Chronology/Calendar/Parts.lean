/-!
# Broken-down times

A time written out field by field: year, month, day, hour, minute, second and nanoseconds, with
an optional offset from UTC. Nothing is checked when the fields are set; a domain checks them when
it packs the time into an index.
-/

namespace Chronology

/-- An offset from UTC: the local time is ahead of UTC when `negative` is false. -/
structure UtcOffset where
  negative : Bool := false
  hours : Nat := 0
  minutes : Nat := 0
  seconds : Nat := 0
  nanos : Nat := 0
deriving DecidableEq, Repr

/-- An offset is zero when all its fields are, whatever its sign. -/
def UtcOffset.isZero (o : UtcOffset) : Bool :=
  o.hours == 0 && o.minutes == 0 && o.seconds == 0 && o.nanos == 0

/-- A time given field by field, by default the first instant of year zero, without offset. -/
structure TimeParts where
  year : Int := 0
  month : Nat := 1
  day : Nat := 1
  hour : Nat := 0
  minute : Nat := 0
  second : Nat := 0
  nanos : Nat := 0
  offset : Option UtcOffset := none
deriving DecidableEq, Repr

/-- The first instant of a year. -/
def TimeParts.ofYear (year : Int) : TimeParts := { year }

end Chronology
