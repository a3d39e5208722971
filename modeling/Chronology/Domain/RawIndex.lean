import Chronology.Domain.Normalize
import Chronology.Calendar.Resolution

/-!
# Raw calendar indices

The raw index of a time at a resolution counts the steps of that resolution from the first
instant of the calendar: years since year zero, months since January of year zero, days since
1 January of year zero, and so on down to nanoseconds. `rawIndex` and `partsOfRaw` go the two
ways between normal times and raw indices.
-/

namespace Chronology

/-- Units of the resolution in a second, or 1 for resolutions of a second or coarser. -/
def Resolution.unitsOrOne (r : Resolution) : Nat := r.unitsPerSecond.getD 1

/-- The raw index of a normal time at a resolution; finer parts are dropped. The index must fit a
signed 64-bit word. -/
def rawIndex (p : TimeParts) (r : Resolution) : Except TimeError Int := do
  let days := liftCal (Gregorian.dayCount p.year p.month p.day)
  let fits := Word.within (.overflow .calendarIndex)
  match r with
  | .year => pure p.year
  | .month => fits (p.year * 12 + ((p.month : Int) - 1))
  | .day => days
  | .hour => fits ((← days) * 24 + p.hour)
  | .min => fits ((← days) * 1440 + (p.hour * 60 + p.minute : Nat))
  | _ =>
    let units := r.unitsOrOne
    let fraction := p.nanos / (nanosPerSecond / units)
    let seconds := ClockTime.seconds ⟨p.hour, p.minute, p.second⟩
    fits (((← days) * 86400 + seconds) * units + fraction)

/-- The first instant of the date `days` after 1 January of year zero. -/
def partsOfDayCount (days : Nat) : Except TimeError TimeParts := do
  let d ← liftCal (Gregorian.dateOfDayCount days)
  pure { year := d.year, month := d.month, day := d.day }

/-- The first instant of the step with raw index `raw` when a second has `units` steps. -/
def partsOfSubsecond (raw units : Nat) : Except TimeError TimeParts := do
  let seconds := raw / units
  let p ← partsOfDayCount (seconds / 86400)
  let t ← liftCal (ClockTime.ofSeconds (seconds % 86400 : Nat))
  pure { p with hour := t.hour, minute := t.minute, second := t.second,
                nanos := raw % units * (nanosPerSecond / units) }

/-- The first instant of the step with raw index `raw` at a resolution. -/
def partsOfRaw (raw : Nat) (r : Resolution) : Except TimeError TimeParts := do
  match r with
  | .year => pure (TimeParts.ofYear raw)
  | .month => pure { year := (raw / 12 : Nat), month := raw % 12 + 1 }
  | .day => partsOfDayCount raw
  | .hour => pure { (← partsOfDayCount (raw / 24)) with hour := raw % 24 }
  | .min =>
    pure { (← partsOfDayCount (raw / 1440)) with hour := raw % 1440 / 60, minute := raw % 1440 % 60 }
  | _ => partsOfSubsecond raw r.unitsOrOne

end Chronology
