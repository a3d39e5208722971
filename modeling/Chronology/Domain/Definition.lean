import Chronology.Pattern.SubPattern
import Chronology.Pattern.Cycle

/-!
# Domain definitions

A time domain numbers the times of a base unit from an origin, possibly leaving out the OFF periods
of a cycle and dividing each remaining period into the positions of a sub-period pattern. These
choices form the domain's `Layout`; a `Definition` adds an optional label. Two definitions of the
same layout define the same domain, whatever their labels.

The built-in domains are the unrestricted domains of each unit, under the unit's name, and the
work week: days without Saturdays and Sundays.
-/

namespace Chronology

/-- How a domain numbers times: base unit, origin, and the optional cycle and sub-period
pattern. -/
structure Layout where
  base : Resolution
  origin : Int := 0
  cycle : Option Cycle := none
  sub : Option SubPattern := none
deriving DecidableEq

namespace Layout

/-- The unit of the domain's steps: the sub-periods' when there are any, else the base's. -/
def resolution (l : Layout) : Resolution :=
  match l.sub with
  | some s => s.subUnit
  | none => l.base

/-- Positions in each base period: the pattern's size, or 1 without a pattern. -/
def size (l : Layout) : Nat :=
  match l.sub with
  | some s => s.size
  | none => 1

/-- A layout is unrestricted when it has neither cycle nor sub-period pattern. -/
def isUnrestricted (l : Layout) : Bool := l.cycle.isNone && l.sub.isNone

end Layout

/-- A layout with an optional label. -/
structure Definition where
  label : Option String := none
  layout : Layout
deriving DecidableEq

namespace Definition

/-- The unrestricted definition of a base unit, without label. -/
def ofBase (base : Resolution) : Definition := { layout := { base } }

/-- The definition under a label. -/
def withLabel (d : Definition) (label : String) : Definition := { d with label := some label }

/-- The definition counted from another origin. -/
def withOrigin (d : Definition) (origin : Int) : Definition :=
  { d with layout := { d.layout with origin } }

/-- The definition with a cycle; a cycle without OFF positions changes nothing and is dropped. -/
def withCycle (d : Definition) (c : Cycle) : Definition :=
  { d with layout := { d.layout with cycle := if c.isEffective then some c else none } }

/-- The definition with a sub-period pattern. -/
def withSub (d : Definition) (s : SubPattern) : Definition :=
  { d with layout := { d.layout with sub := some s } }

/-- The work week: Monday to Friday. Day zero is a Saturday, so the cycle starts with two OFF
days. -/
def workWeek : Cycle := ⟨[false, false, true, true, true, true, true], by decide⟩

/-- The labels of the built-in domains, in the order they are registered. -/
def builtinLabels : List String :=
  ["year", "month", "day", "workweek", "hour", "minute", "second", "millisecond", "microsecond",
    "nanosecond"]

/-- The base unit of a built-in label. -/
def builtinBase? : String → Option Resolution
  | "year" => some .year
  | "month" => some .month
  | "day" => some .day
  | "workweek" => some .day
  | "hour" => some .hour
  | "minute" => some .min
  | "second" => some .sec
  | "millisecond" => some .msec
  | "microsecond" => some .usec
  | "nanosecond" => some .nsec
  | _ => none

/-- The built-in definition under a label, carrying that label. -/
def builtin? (label : String) : Option Definition :=
  (builtinBase? label).map fun base =>
    let d := (ofBase base).withLabel label
    if label = "workweek" then d.withCycle workWeek else d

/-- The built-in definitions, in the order of their labels. -/
def builtins : List Definition := builtinLabels.filterMap builtin?

end Definition

end Chronology
