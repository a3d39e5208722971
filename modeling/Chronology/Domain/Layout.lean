import Chronology.Domain.Definition
import Chronology.Domain.RawIndex

/-!
# Indices of a layout

A layout numbers times in three steps. The raw index counts base periods from the calendar's
start; a cycle, if any, compresses the raw indices of its ON periods into dense base indices; a
sub-period pattern, if any, gives base period `t` the indices `t * size` to `t * size + size - 1`,
one per position. `decompose` runs the steps backwards, from an index to the time it stands for;
an index whose position does not exist in its base period (the 31st of a short month) is dead.

## Main definitions

* `Layout.decompose`: the time an index stands for.
* `Layout.compressAdjusted`: the dense base index of a raw one, moved off an OFF period on request.
* `Layout.maxIndex`: the greatest index, the last one whose computations all fit a word.
-/

namespace Chronology

namespace Cycle

/-- Steps from the raw time `t` forward to the nearest ON time. -/
def stepsUp (c : Cycle) (t : Nat) : Nat :=
  ((List.range c.length).find? fun k => c.isOn (t + k)).getD 0

/-- Steps from the raw time `t` back to the nearest ON time, if there is one from zero on. -/
def stepsDown? (c : Cycle) (t : Nat) : Option Nat :=
  (List.range c.length).find? fun k => decide (k ≤ t) && c.isOn (t - k)

/-- The dense index of the nearest ON time at or below `t`, found within one repetition. -/
def compressDown? (c : Cycle) (t : Int) : Option Int :=
  ((List.range c.length).filterMap fun (i : Nat) => (c.compress (t - Int.ofNat i)).toOption).head?

end Cycle

namespace Layout

/-- The time that the index stands for; dead positions and overflows are refused. -/
def decompose (l : Layout) (index : Nat) : Except TimeError TimeParts := do
  let base := index / l.size
  let raw ← match l.cycle with
    | some c => liftPat (c.expand base)
    | none => pure (base : Int)
  let parts ← partsOfRaw raw.toNat l.base
  match l.sub with
  | some s => liftPat (s.fill (index % l.size) parts)
  | none => pure parts

/-- Whether the index names a position that its base period does not have. -/
def isDead (l : Layout) (index : Nat) : Bool :=
  match l.decompose index with
  | .error (.pattern (.deadSubPeriod _)) => true
  | _ => false

/-- The dense base index of a raw index, and whether it had to move: an OFF period of the cycle is
refused, or left for the nearest ON period above or below it. -/
def compressAdjusted (l : Layout) (raw : Int) (adjust : Adjustment) :
    Except TimeError (Int × Bool) := do
  let some c := l.cycle | return (raw, false)
  if raw < 0 then throw (.pattern (.negativeTime raw))
  if c.isOn raw.toNat then return (← liftPat (c.compress raw), false)
  match adjust with
  | .none => throw (.pattern (.offCycle raw))
  | .up =>
    let next ← Word.within (.overflow .upwardAdjustment) (raw + c.stepsUp raw.toNat)
    pure (← liftPat (c.compress next), true)
  | .down =>
    match c.stepsDown? raw.toNat with
    | some k => pure (← liftPat (c.compress (raw - k)), true)
    | none => throw .beforeCalendar

/-- The last base period whose ranked days can be counted: the day count of a later period would
not fit a word. -/
def lastCountablePeriod (base : Resolution) : Int :=
  let lastYear : Int := Gregorian.yearOfDayCount Word.max.toNat
  match base with
  | .year => lastYear - 1
  | .month => (lastYear - 1) * 12 + 11
  | _ => Word.max

/-- The greatest raw base index: the one whose indices still fit a word, and for ranked days, the
last countable period. -/
def rawLimit (l : Layout) : Int :=
  let raw := Word.max / l.size
  match l.sub with
  | some (.dayRanking _) => min raw (lastCountablePeriod l.base)
  | _ => raw

/-- The greatest dense base index. -/
def baseLimit (l : Layout) : Int :=
  match l.cycle with
  | some c => (c.compressDown? l.rawLimit).getD l.rawLimit
  | none => l.rawLimit

/-- The last index at or below `index` that is not dead; `-1` if every one is. -/
def lastNotDead (l : Layout) : Nat → Int
  | 0 => if l.isDead 0 then -1 else 0
  | n + 1 => if l.isDead (n + 1) then l.lastNotDead n else (n + 1 : Nat)

/-- The greatest index of the layout: the last position of the last base period, or the one
before it when that overflows, moved down past dead positions. -/
def maxIndex (l : Layout) : Int :=
  match l.sub with
  | none => l.baseLimit
  | some s =>
    let scaled := l.baseLimit * s.size
    let top := if Word.Fits (scaled + s.size - 1) then scaled + s.size - 1 else scaled - 1
    l.lastNotDead top.toNat

end Layout

end Chronology
