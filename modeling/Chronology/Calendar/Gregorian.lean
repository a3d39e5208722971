import Chronology.Calendar.Error

/-!
# The proleptic Gregorian calendar from year zero

Dates are counted in days from 1 January of year zero, itself a leap year. A year is a leap year
when it is divisible by 4 and not by 100, or divisible by 400, so 400 years always hold the same
146097 days; a day count splits into whole 400-year blocks and a position inside one block.

## Main definitions

* `isLeap`, `daysInYear`, `daysInMonth`, `leapYears`: the shape of years and months.
* `checkDate`, `dayOfYear`, `dayCount`: a date and its position in its year and in the calendar.
* `dateOfDayCount`, `monthAndDay`: the date of a day count and of a day of the year.

Years are integers, so that a negative year can be refused with its own error; months and days
are natural numbers.
-/

namespace Chronology

/-- A calendar date: year, month from 1 to 12, and day of the month. -/
structure Date where
  year : Int
  month : Nat
  day : Nat
deriving DecidableEq, Repr

namespace Gregorian

/-- Days in a cycle of 400 years: 303 common years and 97 leap years. -/
def daysPer400Years : Nat := 146097

/-- A year is a leap year when divisible by 4 and not by 100, or divisible by 400. -/
def isLeap (year : Int) : Bool :=
  (year % 4 == 0 && year % 100 != 0) || year % 400 == 0

/-- Days before the first of each month, and the days of the whole year last. -/
def daysBeforeMonth (leap : Bool) : List Nat :=
  if leap then [0, 31, 60, 91, 121, 152, 182, 213, 244, 274, 305, 335, 366]
  else [0, 31, 59, 90, 120, 151, 181, 212, 243, 273, 304, 334, 365]

/-- Days in the year: 366 in a leap year and 365 otherwise. -/
def daysInYear (year : Int) : Nat :=
  (daysBeforeMonth (isLeap year)).getD 12 0

/-- Leap years among the years `0, 1, …, year - 1`; year zero is one of them. -/
def leapYearsBefore (year : Nat) : Nat :=
  if year = 0 then 0 else (year - 1) / 4 - (year - 1) / 100 + (year - 1) / 400 + 1

/-- Days from the start of a 400-year block to the start of its `year`-th year. -/
def daysBeforeYearInBlock (year : Nat) : Nat :=
  365 * year + leapYearsBefore year

/-- Refuses a year before year zero. -/
def checkYear (year : Int) : Except CalendarError Unit :=
  if year < 0 then .error (.invalidYear year) else .ok ()

/-- Refuses a month outside 1 to 12. -/
def checkMonth (month : Nat) : Except CalendarError Unit :=
  if 1 ≤ month ∧ month ≤ 12 then .ok () else .error (.invalidMonth month)

/-- Leap years before `year`, counting year zero. -/
def leapYears (year : Int) : Except CalendarError Nat := do
  checkYear year
  pure (leapYearsBefore year.toNat)

/-- Days in a month of a leap or common year, for a month from 1 to 12. -/
def monthLength (leap : Bool) (month : Nat) : Nat :=
  (daysBeforeMonth leap).getD month 0 - (daysBeforeMonth leap).getD (month - 1) 0

/-- Days in the month; only the month is checked, so any year has months. -/
def daysInMonth (year : Int) (month : Nat) : Except CalendarError Nat := do
  checkMonth month
  pure (monthLength (isLeap year) month)

/-- Accepts a date of the calendar: the year, then the month, then the day are checked. -/
def checkDate (year : Int) (month day : Nat) : Except CalendarError Unit := do
  checkYear year
  let maxDay ← daysInMonth year month
  if 1 ≤ day ∧ day ≤ maxDay then pure () else throw (.invalidDay day month maxDay)

/-- The position of a date in its year, 1 January being day 1. -/
def dayOfYear (year : Int) (month day : Nat) : Except CalendarError Nat := do
  checkDate year month day
  pure ((daysBeforeMonth (isLeap year)).getD (month - 1) 0 + day)

/-- Days from 1 January of year zero to the date, which must fit a signed 64-bit word. -/
def dayCount (year : Int) (month day : Nat) : Except CalendarError Int := do
  let doy ← dayOfYear year month day
  let within := daysBeforeYearInBlock (year % 400).toNat + doy - 1
  Word.within (.overflow .dayCount) (year / 400 * daysPer400Years + within)

/-- The month and the day of the month of a day of the year (from 1), in a leap or common year. -/
def monthAndDay (dayOfYear : Nat) (leap : Bool) : Except CalendarError (Nat × Nat) := do
  let table := daysBeforeMonth leap
  let max := table.getD 12 0
  if dayOfYear = 0 ∨ max < dayOfYear then throw (.invalidDayOfYear dayOfYear max)
  let before := dayOfYear - 1
  -- the months that begin on or before the day, January apart
  let monthIndex := ((table.drop 1).takeWhile fun start => decide (start ≤ before)).length
  pure (monthIndex + 1, before - table.getD monthIndex 0 + 1)

/-- The year of a block that holds the `rem`-th day of the block. -/
def yearInBlock (rem : Nat) : Nat :=
  let guess := (rem - leapYearsBefore (rem / 365)) / 365
  if daysBeforeYearInBlock (guess + 1) ≤ rem then guess + 1
  else if rem < daysBeforeYearInBlock guess then guess - 1
  else guess

/-- The date that lies `days` days after 1 January of year zero. -/
def dateOfDayCount (days : Int) : Except CalendarError Date := do
  if days < 0 then throw (.invalidDayCount days)
  let blocks := days.toNat / daysPer400Years
  let rem := days.toNat % daysPer400Years
  let year := yearInBlock rem
  let (month, day) ← monthAndDay (rem - daysBeforeYearInBlock year + 1) (isLeap year)
  pure ⟨blocks * 400 + year, month, day⟩

/-- The year that holds the day `days` after 1 January of year zero. -/
def yearOfDayCount (days : Nat) : Nat :=
  days / daysPer400Years * 400 + yearInBlock (days % daysPer400Years)

theorem daysBeforeYearInBlock_400 : daysBeforeYearInBlock 400 = daysPer400Years := by decide

end Gregorian

end Chronology
