import Chronology.Calendar.Error
import Chronology.Text.Blank

/-!
# Weekdays

The seven days of the week, numbered from Monday = 1 to Sunday = 7, and the weekday of a day
count. Day zero of the calendar, 1 January of year zero, is a Saturday.
-/

namespace Chronology

/-- The days of the week, Monday first. -/
inductive Weekday where
  | monday
  | tuesday
  | wednesday
  | thursday
  | friday
  | saturday
  | sunday
deriving DecidableEq, Repr

namespace Weekday

/-- All weekdays, Monday first. -/
def all : List Weekday := [monday, tuesday, wednesday, thursday, friday, saturday, sunday]

/-- Days after Monday: Monday is 0 and Sunday is 6. -/
def index : Weekday → Nat
  | monday => 0
  | tuesday => 1
  | wednesday => 2
  | thursday => 3
  | friday => 4
  | saturday => 5
  | sunday => 6

/-- The number of the weekday: Monday is 1 and Sunday is 7. -/
def number (w : Weekday) : Nat := w.index + 1

/-- The English name of the weekday. -/
def name : Weekday → String
  | monday => "Monday"
  | tuesday => "Tuesday"
  | wednesday => "Wednesday"
  | thursday => "Thursday"
  | friday => "Friday"
  | saturday => "Saturday"
  | sunday => "Sunday"

/-- The weekday with the given index, counted modulo 7. -/
def ofIndex (i : Nat) : Weekday :=
  match i % 7 with
  | 0 => monday
  | 1 => tuesday
  | 2 => wednesday
  | 3 => thursday
  | 4 => friday
  | 5 => saturday
  | _ => sunday

/-- The weekday of a number from 1 to 7; any other number is refused, repeated in decimal. -/
def ofNumber (n : Nat) : Except CalendarError Weekday :=
  if 1 ≤ n ∧ n ≤ 7 then .ok (ofIndex (n - 1)) else .error (.invalidWeekday (toString n))

/-- A lowercase text names a weekday when it is the whole name, or when it has three characters
and begins the name. -/
def Matches (lower : String) (w : Weekday) : Bool :=
  let full := Text.lowerAscii w.name
  lower == full || (lower.length == 3 && full.startsWith lower)

/-- Reads a weekday from its English name or its three-letter abbreviation, ignoring blanks at the
ends and the case of ASCII letters. The error repeats the text as given. -/
def parse (s : String) : Except CalendarError Weekday :=
  match all.find? (Matches (Text.lowerAscii (Text.trimBlank s))) with
  | some w => .ok w
  | none => .error (.invalidWeekday s)

/-- The weekday of the day `days` after 1 January of year zero, a Saturday. -/
def ofDayCount (days : Int) : Except CalendarError Weekday :=
  if days < 0 then .error (.invalidDayCount days) else .ok (ofIndex (days.toNat + 5))

theorem ofIndex_index (w : Weekday) : ofIndex w.index = w := by
  cases w <;> rfl

theorem index_lt (w : Weekday) : w.index < 7 := by
  cases w <;> decide

end Weekday

end Chronology
