import Chronology.Domain.Error
import Chronology.Calendar.Parts
import Chronology.Text.Blank

/-!
# Reading times

A time is read in one of two written forms, after removing blanks at both ends.

* Extended: `[+]YYYY[-MM[-DD[(T| )hh[:mm[:ss[(.|,)f]]]]]]`, then an optional offset `Z` or
  `±hh[:mm[:ss[.f]]]`.
* Basic: `[+]YYYYMMDDThh[mm[ss[(.|,)f]]]`, then an optional offset `Z` or `±hh[mm[ss]]`.

Digits are ASCII digits; a year has four or more, every other field two, and a fraction one to
nine, read as the leading digits of the nanoseconds. The extended form is tried first. Where a
text can be read in several ways the readings are ranked as a backtracking reader ranks them:
an optional part is read when possible, and a run of digits is as long as possible. So in
`2008-06:30` the `-06` cannot be a month (no day or offset may follow it as written), and is
read as the offset `-06:30`; in the basic form the year is every digit before the last four
of the date.

A year of more than four digits needs a leading `+`, and must fit a signed 64-bit word.
-/

namespace Chronology.Text

/-- Every way to read a prefix of the input, the preferred first, each with the rest. -/
def Reader (α : Type) : Type := List Char → List (α × List Char)

namespace Reader

instance : Monad Reader where
  pure a := fun s => [(a, s)]
  bind r f := fun s => (r s).flatMap fun (a, rest) => f a rest

/-- One character that passes the test. -/
def char (test : Char → Bool) : Reader Char
  | c :: rest => if test c then [(c, rest)] else []
  | [] => []

/-- Exactly `n` ASCII digits. -/
def digits (n : Nat) : Reader (List Char) := fun s =>
  if (s.take n).length = n ∧ (s.take n).all Char.isDigit then [(s.take n, s.drop n)] else []

/-- At least `lo` and at most `hi` ASCII digits, as many as possible first. -/
def digitsBetween (lo : Nat) (hi : Option Nat) : Reader (List Char) := fun s =>
  let run := (s.takeWhile Char.isDigit).length
  let most := match hi with
    | some h => min run h
    | none => run
  (((List.range (most + 1)).reverse.filter fun k => decide (lo ≤ k)).map fun k =>
    (s.take k, s.drop k))

/-- The reader's readings, then the reading of nothing. -/
def opt {α : Type} (r : Reader α) : Reader (Option α) := fun s =>
  ((r s).map fun (a, rest) => (some a, rest)) ++ [(none, s)]

/-- The end of the input. -/
def finish : Reader Unit
  | [] => [((), [])]
  | _ => []

end Reader

open Reader

/-- A UTC offset as written: `Z`, or a sign with hours and optional minutes, seconds and
fraction. -/
inductive OffsetText where
  | utc
  | signed (negative : Bool) (hours : List Char) (minutes seconds fraction : Option (List Char))

/-- The digits of each field of a written time. -/
structure TimeText where
  plus : Bool
  year : List Char
  month : Option (List Char) := none
  day : Option (List Char) := none
  hour : Option (List Char) := none
  minute : Option (List Char) := none
  second : Option (List Char) := none
  fraction : Option (List Char) := none
  offset : Option OffsetText := none

/-- A sign, `+` or `-`; true for `-`. -/
def sign : Reader Bool := do
  let c ← char fun c => c == '+' || c == '-'
  pure (c == '-')

/-- Minutes of an extended offset, with the seconds and fraction that may follow. -/
def extendedOffsetMinutes : Reader (List Char × Option (List Char × Option (List Char))) := do
  let _ ← char (· == ':')
  let minutes ← digits 2
  let more ← opt do
    let _ ← char (· == ':')
    let seconds ← digits 2
    let fraction ← opt do
      let _ ← char (· == '.')
      digitsBetween 1 (some 9)
    pure (seconds, fraction)
  pure (minutes, more)

/-- An offset of the extended form: `Z` or `±hh[:mm[:ss[.f]]]`. -/
def extendedOffset : Reader OffsetText := fun s =>
  (do let _ ← char (· == 'Z'); pure OffsetText.utc) s ++
  (do
    let negative ← sign
    let hours ← digits 2
    let more ← opt extendedOffsetMinutes
    pure (match more with
      | some (minutes, some (seconds, fraction)) =>
        OffsetText.signed negative hours (some minutes) (some seconds) fraction
      | some (minutes, none) => OffsetText.signed negative hours (some minutes) none none
      | none => OffsetText.signed negative hours none none none)) s

/-- Minutes of a basic offset, with the seconds that may follow. -/
def basicOffsetMinutes : Reader (List Char × Option (List Char)) := do
  let minutes ← digits 2
  let seconds ← opt (digits 2)
  pure (minutes, seconds)

/-- An offset of the basic form: `Z` or `±hh[mm[ss]]`. -/
def basicOffset : Reader OffsetText := fun s =>
  (do let _ ← char (· == 'Z'); pure OffsetText.utc) s ++
  (do
    let negative ← sign
    let hours ← digits 2
    let more ← opt basicOffsetMinutes
    pure (match more with
      | some (minutes, seconds) => OffsetText.signed negative hours (some minutes) seconds none
      | none => OffsetText.signed negative hours none none none)) s

/-- A fraction of a second after `.` or `,`. -/
def fractionPart : Reader (List Char) := do
  let _ ← char fun c => c == '.' || c == ','
  digitsBetween 1 (some 9)

/-- Seconds of the extended form, with the fraction that may follow: `:ss[(.|,)f]`. -/
def extendedSecond : Reader (List Char × Option (List Char)) := do
  let _ ← char (· == ':')
  let second ← digits 2
  let fraction ← opt fractionPart
  pure (second, fraction)

/-- Minutes of the extended form, with the seconds that may follow: `:mm[:ss…]`. -/
def extendedMinute : Reader (List Char × Option (List Char × Option (List Char))) := do
  let _ ← char (· == ':')
  let minute ← digits 2
  let rest ← opt extendedSecond
  pure (minute, rest)

/-- The time of day of the extended form: `(T| )hh[:mm…]`. -/
def extendedTime :
    Reader (List Char × Option (List Char × Option (List Char × Option (List Char)))) := do
  let _ ← char fun c => c == 'T' || c == ' '
  let hour ← digits 2
  let rest ← opt extendedMinute
  pure (hour, rest)

/-- The day of the extended form, with the time of day that may follow: `-DD[(T| )hh…]`. -/
def extendedDay : Reader (List Char ×
    Option (List Char × Option (List Char × Option (List Char × Option (List Char))))) := do
  let _ ← char (· == '-')
  let day ← digits 2
  let time ← opt extendedTime
  pure (day, time)

/-- The month of the extended form, with the day that may follow: `-MM[-DD…]`. -/
def extendedDate : Reader (List Char × Option (List Char ×
    Option (List Char × Option (List Char × Option (List Char × Option (List Char)))))) := do
  let _ ← char (· == '-')
  let month ← digits 2
  let rest ← opt extendedDay
  pure (month, rest)

/-- The extended form. -/
def extended : Reader TimeText := do
  let plus ← opt (char (· == '+'))
  let year ← digitsBetween 4 none
  let date ← opt extendedDate
  let offset ← opt extendedOffset
  finish
  let day := date.bind (·.2)
  let time := day.bind (·.2)
  let minute := time.bind (·.2)
  let second := minute.bind (·.2)
  pure { plus := plus.isSome, year, month := date.map (·.1), day := day.map (·.1),
         hour := time.map (·.1), minute := minute.map (·.1), second := second.map (·.1),
         fraction := second.bind (·.2), offset }

/-- The basic form. -/
def basic : Reader TimeText := do
  let plus ← opt (char (· == '+'))
  let year ← digitsBetween 4 none
  let month ← digits 2
  let day ← digits 2
  let _ ← char (· == 'T')
  let hour ← digits 2
  let rest ← opt do
    let minute ← digits 2
    let rest ← opt do
      let second ← digits 2
      let fraction ← opt fractionPart
      pure (second, fraction)
    pure (minute, rest)
  let offset ← opt basicOffset
  finish
  pure { plus := plus.isSome, year, month, day, hour, minute := rest.map (·.1),
         second := (rest.bind (·.2)).map (·.1), fraction := (rest.bind (·.2)).bind (·.2), offset }

/-- The value of ASCII digits. -/
def digitValue (ds : List Char) : Nat :=
  ds.foldl (fun n c => n * 10 + (c.toNat - '0'.toNat)) 0

/-- The value of a field, or its default when it is not written. -/
def fieldValue (ds : Option (List Char)) (default : Nat) : Nat :=
  (ds.map digitValue).getD default

/-- Nanoseconds of a fraction: its digits are the leading digits of nine. -/
def fractionNanos (ds : Option (List Char)) : Nat :=
  match ds with
  | some ds => digitValue ds * Nat.pow 10 (9 - ds.length)
  | none => 0

/-- The offset that a written offset stands for; `Z` is UTC. -/
def OffsetText.toOffset : OffsetText → UtcOffset
  | .utc => {}
  | .signed negative hours minutes seconds fraction =>
    { negative, hours := digitValue hours, minutes := fieldValue minutes 0,
      seconds := fieldValue seconds 0, nanos := fractionNanos fraction }

/-- The time that a reading stands for; the year is checked here. -/
def TimeText.toParts (w : TimeText) (input : String) : Except TimeError TimeParts := do
  if 4 < w.year.length ∧ !w.plus then throw (.parse input .longYearWithoutPlus)
  let year := digitValue w.year
  if Word.max < year then throw (.parse input .yearTooLarge)
  pure { year, month := fieldValue w.month 1, day := fieldValue w.day 1,
         hour := fieldValue w.hour 0, minute := fieldValue w.minute 0,
         second := fieldValue w.second 0, nanos := fractionNanos w.fraction,
         offset := w.offset.map OffsetText.toOffset }

/-- The preferred complete reading of the input. -/
def firstReading {α : Type} (r : Reader α) (s : List Char) : Option α :=
  ((r s).filter fun (_, rest) => rest.isEmpty).head?.map (·.1)

/-- Reads a time in the extended or the basic form, after removing blanks at both ends. Errors
repeat the text without those blanks. -/
def scan (text : String) : Except TimeError TimeParts :=
  let cs := trimBlankList text.toList
  let input := String.ofList cs
  match firstReading extended cs <|> firstReading basic cs with
  | some w => w.toParts input
  | none => .error (.parse input .noMatch)

end Chronology.Text
