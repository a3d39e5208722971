import Chronology.Pattern.DayRanking
import Chronology.Pattern.Adjustment

/-!
# Sub-period patterns

A sub-period pattern divides every base period into `size` positions, so that the sub-periods of a
domain are numbered densely: position `j` of base period `t` has the number `t * size + j`. The
positions are fixed ranks or ranked weekdays.

## Main definitions

* `SubPattern.locate`: the number of a time's sub-period, adjusted when the time falls between
  positions.
* `SubPattern.fill`: the time of a position within a base period.
-/

namespace Chronology

/-- A division of each base period into positions. -/
inductive SubPattern where
  | fixed (p : FixedRanks)
  | dayRanking (p : DayRanking)
deriving DecidableEq, Repr

namespace SubPattern

/-- The unit of the base periods. -/
def baseUnit : SubPattern → Resolution
  | fixed p => p.pairing.base
  | dayRanking p => p.period.unit

/-- The unit of the sub-periods. -/
def subUnit : SubPattern → Resolution
  | fixed p => p.pairing.sub
  | dayRanking _ => .day

/-- Positions in each base period. -/
def size : SubPattern → Nat
  | fixed p => p.ranks.length
  | dayRanking p => p.ranks.length

/-- The time's value in the sub unit, and where it stands among the positions. -/
def lookup : SubPattern → TimeParts → Except PatternError (Int × Lookup)
  | fixed p, parts => pure (p.lookup parts)
  | dayRanking p, parts => p.lookup parts

/-- The number of a position of the base period `period`: exact when found; else refused, the
next position (possibly `size`, the first of the next period) or the previous one (possibly `-1`,
the last of the period before). The scaled period must fit a word before anything else is
decided. -/
def place (period : Int) (size : Nat) (value : Int) (l : Lookup) (adjust : Adjustment) :
    Except PatternError Int := do
  let base ← Word.within (.overflow .subPeriodAdjustment) (period * size)
  let position : Int ← match l, adjust with
    | .found i, _ => pure i
    | .missing _ _, .none => throw (.missingSubPeriod period value)
    | .missing next _, .up => pure next
    | .missing _ previous, .down => pure (match previous with | some i => i | none => -1)
  Word.within (.overflow .subPeriodAdjustment) (base + position)

/-- The number of the sub-period that holds the time, within base period `period`. -/
def locate (p : SubPattern) (period : Int) (adjust : Adjustment) (parts : TimeParts) :
    Except PatternError Int := do
  let (value, l) ← p.lookup parts
  place period p.size value l adjust

/-- The time with its sub-period set to the one at `position`. -/
def fill (p : SubPattern) (position : Nat) (parts : TimeParts) : Except PatternError TimeParts :=
  if p.size ≤ position then .error (.positionOutOfRange position p.size)
  else match p with
    | fixed q => q.fill position parts
    | dayRanking q => q.fill position parts

end SubPattern

end Chronology
