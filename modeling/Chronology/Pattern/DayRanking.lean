import Chronology.Pattern.Fixed
import Chronology.Calendar.Rank

/-!
# Ranked weekdays as sub-periods

A month or a year divided into the days named by ranked weekdays: "the first Monday and the last
Friday of each month". The days move from period to period, and a rank that a period does not
reach, such as a fifth Monday, is dead there. The list order is the order of the positions, so it
must be the order in which the days fall: the pattern is checked over a whole 400-year cycle, after
which every calendar repeats.

## Main definitions

* `DayRank`: a weekday with its rank in the period.
* `DayRanking.make`: checks the ranked weekdays.
* `DayRanking.lookup`, `DayRanking.fill`: the two directions between days and positions.
-/

namespace Chronology

/-- A weekday and its rank in a period: from the start when positive, from the end when
negative. -/
structure DayRank where
  weekday : Weekday
  rank : Int
deriving DecidableEq, Repr

/-- The periods whose days can be named by ranked weekdays. -/
inductive RankingPeriod where
  | month
  | year
deriving DecidableEq, Repr

namespace RankingPeriod

/-- The unit of the period. -/
def unit : RankingPeriod → Resolution
  | month => .month
  | year => .year

/-- The period of a unit, for a month or a year. -/
def ofUnit? : Resolution → Option RankingPeriod
  | .month => some month
  | .year => some year
  | _ => none

/-- The months that the period is checked over: each month, or the whole year as month 0. -/
def months : RankingPeriod → List Nat
  | month => List.range' 1 12
  | year => [0]

end RankingPeriod

namespace DayRanking

/-- The days of a period named by the ranks, in list order, 0 for a rank that the period does not
reach. The month is 0 for a whole year. -/
def daysIn (ranks : List DayRank) (year : Int) (month : Nat) : Except PatternError (List Nat) :=
  ranks.mapM fun r => liftCalendar (Gregorian.dayByRank year month r.weekday r.rank)

/-- The list increases strictly. -/
def StrictlyIncreasing : List Nat → Bool
  | a :: b :: rest => a < b && StrictlyIncreasing (b :: rest)
  | _ => true

/-- Refuses, in list order, a ranked weekday given twice or a rank the period cannot have. -/
def checkEach (month : Nat) : List DayRank → List DayRank → Except PatternError Unit
  | _, [] => pure ()
  | seen, r :: rest => do
    if r ∈ seen then throw (.duplicateDayRank r.weekday r.rank)
    let _ ← liftCalendar (Gregorian.dayByRank 0 month r.weekday r.rank)
    checkEach month (r :: seen) rest

/-- Refuses the ranks if in some period of the 400-year cycle the days that fall do not come in
list order. -/
def checkOrder (period : RankingPeriod) (ranks : List DayRank) : Except PatternError Unit :=
  ((List.range 400).flatMap fun year => period.months.map fun month => (year, month)).forM
    fun (year, month) => do
      let days ← daysIn ranks year month
      unless StrictlyIncreasing (days.filter (· ≠ 0)) do
        throw (.unorderedDayRanks year month)

end DayRanking

/-- Ranked weekdays that divide each month or each year, with the proofs that they passed the
checks of `DayRanking.make`: each ranked weekday once and within the period, and, when there are
several, in the order in which their days fall throughout the 400-year cycle. -/
structure DayRanking where
  period : RankingPeriod
  ranks : List DayRank
  ranks_ne_nil : ranks ≠ []
  checked : DayRanking.checkEach (period.months.headD 0) [] ranks = .ok ()
  ordered : 1 < ranks.length → DayRanking.checkOrder period ranks = .ok ()
deriving DecidableEq, Repr

namespace DayRanking

/-- Builds the pattern: the base must be a month or a year, the ranks must be given, each once and
within the period, and must fall in list order. -/
def make (base : Resolution) (ranks : List DayRank) : Except PatternError DayRanking :=
  match RankingPeriod.ofUnit? base with
  | none => .error (.unsupportedPairing base .day)
  | some period =>
    if hnil : ranks = [] then .error .emptyRanks
    else
      match hc : checkEach (period.months.headD 0) [] ranks with
      | .error e => .error e
      | .ok () =>
        if hlen : 1 < ranks.length then
          match ho : checkOrder period ranks with
          | .error e => .error e
          | .ok () => .ok ⟨period, ranks, hnil, hc, fun _ => ho⟩
        else .ok ⟨period, ranks, hnil, hc, fun h => absurd h hlen⟩

/-- The year and month (0 for a whole year) of the period that holds a time. -/
def periodOf (p : DayRanking) (parts : TimeParts) : Int × Nat :=
  match p.period with
  | .month => (parts.year, parts.month)
  | .year => (parts.year, 0)

/-- The last index of a list whose element passes the test. -/
def lastIndexWhere (test : Nat → Bool) (xs : List Nat) : Option Nat :=
  ((List.range xs.length).filter fun i => test (xs.getD i 0)).getLast?

/-- The time's day in its period, and where it stands among the days of the ranks there. -/
def lookup (p : DayRanking) (parts : TimeParts) : Except PatternError (Int × Lookup) := do
  let value ← match p.period with
    | .month => pure parts.day
    | .year => liftCalendar (Gregorian.dayOfYear parts.year parts.month parts.day)
  let (year, month) := p.periodOf parts
  let days ← daysIn p.ranks year month
  let position := match days.idxOf? value with
    | some i => Lookup.found i
    | none =>
      .missing ((days.findIdx? fun d => decide (value < d)).getD days.length)
        (lastIndexWhere (fun d => d != 0 && decide (d < value)) days)
  pure (value, position)

/-- The time with its day set to the one the rank at `position` names in the period; a rank that
the period does not reach is dead. -/
def fill (p : DayRanking) (position : Nat) (parts : TimeParts) :
    Except PatternError TimeParts := do
  let some r := p.ranks[position]? | throw (.positionOutOfRange position p.ranks.length)
  let (year, month) := p.periodOf parts
  let day ← liftCalendar (Gregorian.dayByRank year month r.weekday r.rank)
  if day = 0 then throw (.deadSubPeriod position)
  match p.period with
  | .month => pure { parts with day }
  | .year =>
    let (m, d) ← liftCalendar (Gregorian.monthAndDay day (Gregorian.isLeap year))
    pure { parts with month := m, day := d }

end DayRanking

end Chronology
