import Chronology.Domain.Error
import Chronology.Calendar.Gregorian
import Chronology.Calendar.Clock
import Chronology.Calendar.Parts

/-!
# Normal times

Before a time is packed into an index it is checked and brought to a normal form: a date of the
calendar, a clock time below `24:00`, no leap second and no offset. The checks run in a fixed
order (date, hour, minute, second, fraction, leap second, `24:00`, offset), and the first failing
one is the answer.

* A leap second, `:60`, is allowed on 30 June and 31 December only, and counts as `:59`.
* `24:00` is the first instant of the next day.
* A non-zero offset is removed by moving the time to UTC, across days if need be.
-/

namespace Chronology

/-- Nanoseconds in a second. -/
def nanosPerSecond : Nat := 1000000000

/-- Nanoseconds in a day. -/
def nanosPerDay : Nat := 86400 * nanosPerSecond

/-- Refuses a field above its limit. -/
def checkField (field : TimeField) (value limit : Nat) : Except TimeError Unit :=
  if value ≤ limit then .ok () else .error (.invalidField field value)

namespace TimeParts

/-- Nanoseconds since midnight of a clock time with a fraction. -/
def nanosOfDay (hour minute second nanos : Nat) : Int :=
  (ClockTime.seconds ⟨hour, minute, second⟩ * nanosPerSecond + nanos : Nat)

/-- The time moved to UTC, for a non-zero offset whose fields are checked first. -/
def applyOffset (p : TimeParts) (o : UtcOffset) : Except TimeError TimeParts := do
  checkField .offsetHours o.hours 23
  checkField .offsetMinutes o.minutes 59
  checkField .offsetSeconds o.seconds 59
  checkField .offsetFraction o.nanos (nanosPerSecond - 1)
  let localNanos := nanosOfDay p.hour p.minute p.second p.nanos
  let shift := nanosOfDay o.hours o.minutes o.seconds o.nanos
  let utc := if o.negative then localNanos + shift else localNanos - shift
  let start ← liftCal (Gregorian.dayCount p.year p.month p.day)
  let days ← Word.within (.overflow .offsetCarry) (start + utc / (nanosPerDay : Int))
  if days < 0 then throw .beforeCalendar
  let within := utc % (nanosPerDay : Int)
  let d ← liftCal (Gregorian.dateOfDayCount days)
  let t ← liftCal (ClockTime.ofSeconds (within / (nanosPerSecond : Int)))
  pure { year := d.year, month := d.month, day := d.day, hour := t.hour, minute := t.minute,
         second := t.second, nanos := (within % (nanosPerSecond : Int)).toNat }

/-- Replaces a leap second by the last ordinary second of the day; only 30 June and 31 December
have one. -/
def settleLeapSecond (p : TimeParts) : Except TimeError TimeParts :=
  if p.second = 60 then
    if (p.month = 6 ∧ p.day = 30) ∨ (p.month = 12 ∧ p.day = 31) then .ok { p with second := 59 }
    else .error (.invalidLeapSecond p.year p.month p.day)
  else .ok p

/-- Replaces `24:00` by midnight of the next day; any other time at hour 24 is refused. -/
def settleMidnight (p : TimeParts) : Except TimeError TimeParts := do
  if p.hour ≠ 24 then return p
  if p.minute ≠ 0 ∨ p.second ≠ 0 ∨ p.nanos ≠ 0 then throw (.invalidField .hour 24)
  let days ← liftCal (Gregorian.dayCount p.year p.month p.day)
  let next ← Word.within (.overflow .midnightRollover) (days + 1)
  let d ← liftCal (Gregorian.dateOfDayCount next)
  pure { p with year := d.year, month := d.month, day := d.day, hour := 0 }

/-- The checked time in normal form: a date of the calendar, a clock time below `24:00` without
leap second, in UTC. -/
def normalize (parts : TimeParts) : Except TimeError TimeParts := do
  liftCal (Gregorian.checkDate parts.year parts.month parts.day)
  checkField .hour parts.hour 24
  checkField .minute parts.minute 59
  checkField .second parts.second 60
  checkField .fraction parts.nanos (nanosPerSecond - 1)
  let p ← settleMidnight (← settleLeapSecond parts)
  match p.offset with
  | some o => if o.isZero then pure { p with offset := none } else applyOffset p o
  | none => pure p

end TimeParts

end Chronology
