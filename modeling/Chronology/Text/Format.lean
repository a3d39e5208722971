import Chronology.Calendar.Parts
import Chronology.Calendar.Resolution
import Chronology.Text.Decimal

/-!
# Written times

A time is written down to its resolution: `2008-06-25 12:30:05.250` at milliseconds, `2008-06`
at months. The year has at least four digits and a plus sign when it has more; month, day, hour,
minute and second have two digits; the fraction has as many digits as the resolution has below a
second.
-/

namespace Chronology.Text

/-- The time written down to the resolution. -/
def formatTime (p : TimeParts) (r : Resolution) : String :=
  let level := r.level
  let field (shown : Bool) (sep : String) (value : Nat) : String :=
    if shown then sep ++ padNat 2 value else ""
  let digits := r.fractionDigits
  (if 9999 < p.year then "+" else "") ++ padInt 4 p.year ++
    field (1 ≤ level) "-" p.month ++ field (2 ≤ level) "-" p.day ++
    field (3 ≤ level) " " p.hour ++ field (4 ≤ level) ":" p.minute ++
    field (5 ≤ level) ":" p.second ++
    (if 0 < digits then "." ++ padNat digits (p.nanos / Nat.pow 10 (9 - digits)) else "")

end Chronology.Text
