import Chronology.Calendar.Gregorian
import Chronology.Calendar.Weekday

/-!
# Ranked weekdays

"The second Tuesday of March" and "the last Friday of the year" name a day by the rank of a
weekday in a period: a positive rank counts occurrences from the start of the period and a
negative rank from its end. A month holds a weekday at most 5 times and a year at most 53.
-/

namespace Chronology.Gregorian

/-- The most occurrences of a weekday in a month. -/
def maxRankInMonth : Nat := 5

/-- The most occurrences of a weekday in a year. -/
def maxRankInYear : Nat := 53

/-- The most occurrences of a weekday in a month, or in a year when `month` is 0. -/
def maxRankIn (month : Nat) : Nat := if month = 0 then maxRankInYear else maxRankInMonth

/-- The day count of the first day of a month, or of a year when `month` is 0, with the length of
that period in days. -/
def periodSpan (year : Int) (month : Nat) : Except CalendarError (Int × Nat) :=
  if month = 0 then do pure ((← dayCount year 1 1), daysInYear year)
  else do pure ((← dayCount year month 1), (← daysInMonth year month))

/-- The day on which the `rank`-th `weekday` falls in a period of `length` days that begins on
`firstWeekday`, counting from the end for a negative rank; 0 when the period has no such
occurrence. -/
def rankedDay (firstWeekday : Weekday) (length : Nat) (weekday : Weekday) (rank : Int) : Nat :=
  -- the first day of the period that falls on the weekday
  let first : Int := 1 + ((weekday.index : Int) - firstWeekday.index) % 7
  let day : Int :=
    if 0 < rank then first + (rank - 1) * 7
    else first + ((length : Int) - first) / 7 * 7 + (rank + 1) * 7
  if day < 1 ∨ (length : Int) < day then 0 else day.toNat

/-- The day of the month on which the `rank`-th `weekday` falls, or the day of the year when
`month` is 0; 0 when the period has no such occurrence. The period is checked before the rank. -/
def dayByRank (year : Int) (month : Nat) (weekday : Weekday) (rank : Int) :
    Except CalendarError Nat := do
  let (firstDay, length) ← periodSpan year month
  if rank = 0 ∨ maxRankIn month < rank.natAbs then throw (.invalidRank rank (maxRankIn month))
  let firstWeekday ← Weekday.ofDayCount firstDay
  pure (rankedDay firstWeekday length weekday rank)

end Chronology.Gregorian
