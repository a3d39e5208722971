import Chronology.Domain.Layout
import Chronology.Text.Format

/-!
# Time domains

A time domain is a definition whose indices have been bounded: its indices run from 0 to
`maxIndex`, the last index whose computations fit a signed 64-bit word. Packing takes a time to
its index, adjusted as asked when the time falls where the domain has no index; unpacking takes an
index back to its time.

## Main definitions

* `TimeDomain.make`: checks a definition and bounds its indices.
* `TimeDomain.pack`: the index of a time.
* `TimeDomain.unpack`: the time of an index.
* `TimeDomain.settle`: the nearest live index, for indices that a pattern leaves dead.
-/

namespace Chronology

/-- A checked definition with the greatest index of its layout: its sub-period pattern, if any,
divides the periods of its base unit. -/
structure TimeDomain where
  definition : Definition
  maxIndex : Int
  maxIndex_eq : maxIndex = definition.layout.maxIndex
  sub_base : ∀ s ∈ definition.layout.sub, s.baseUnit = definition.layout.base

namespace TimeDomain

/-- The layout of the domain's definition. -/
def layout (d : TimeDomain) : Layout := d.definition.layout

/-- Checks that a sub-period pattern divides the domain's base unit, and bounds the indices. -/
def make (definition : Definition) : Except TimeError TimeDomain :=
  match h : definition.layout.sub with
  | some s =>
    if hs : s.baseUnit = definition.layout.base then
      .ok ⟨definition, _, rfl, fun s' hs' => by simp_all⟩
    else .error (.subdivisionMismatch s.baseUnit definition.layout.base)
  | none => .ok ⟨definition, _, rfl, fun _ hs => by simp_all⟩

/-- The unrestricted domain of a unit, without label. -/
def unrestricted (r : Resolution) : TimeDomain :=
  ⟨Definition.ofBase r, _, rfl, fun _ hs => by simp [Definition.ofBase] at hs⟩

/-- The domain's label, or a description of its base unit. -/
def display (d : TimeDomain) : String :=
  match d.definition.label with
  | some label => label
  | none => "unlabeled " ++ d.layout.base.name ++ " domain"

/-- The unit of the domain's steps. -/
def resolution (d : TimeDomain) : Resolution := d.layout.resolution

/-- The index that the domain counts offsets from. -/
def origin (d : TimeDomain) : Int := d.layout.origin

/-- Two domains are the same when their layouts are, whatever their labels. -/
def Same (d e : TimeDomain) : Prop := d.layout = e.layout

instance (d e : TimeDomain) : Decidable (Same d e) := inferInstanceAs (Decidable (_ = _))

/-- The least index whose offset fits a signed 32-bit word, and not below 0. -/
def minOffsetIndex (d : TimeDomain) : Int := max (d.origin + Word.min32) 0

/-- The greatest index whose offset fits a signed 32-bit word, and not above `maxIndex`. -/
def maxOffsetIndex (d : TimeDomain) : Int := min (d.origin + Word.max32) d.maxIndex

/-- Refuses an index outside `[0, maxIndex]`. -/
def valid (d : TimeDomain) (index : Int) : Except TimeError Unit :=
  if 0 ≤ index ∧ index ≤ d.maxIndex then .ok () else .error (.outOfRange index d.maxIndex)

/-- The index counted from the origin, which must fit a signed 32-bit word; the error shows the
offset, or the least word when even that does not fit. -/
def offsetOf (d : TimeDomain) (index : Int) : Except TimeError Int :=
  let offset := index - d.origin
  if Word.Fits32 offset then .ok offset
  else .error (.offsetOutOfRange (if Word.Fits offset then offset else Word.min))

/-- The time of an index of the domain. -/
def unpack (d : TimeDomain) (index : Int) : Except TimeError TimeParts := do
  d.valid index
  d.layout.decompose index.toNat

/-- The first index at or above `index` that is not dead, within the domain. -/
def settleUp (d : TimeDomain) (index : Int) : Except TimeError Int :=
  if _h : 0 ≤ index ∧ index ≤ d.maxIndex then
    match d.layout.decompose index.toNat with
    | .ok _ => .ok index
    | .error (.pattern (.deadSubPeriod _)) =>
      if Word.max < index + 1 then .error (.overflow .upwardAdjustment)
      else d.settleUp (index + 1)
    | .error e => .error e
  else .error (.outOfRange index d.maxIndex)
termination_by (d.maxIndex + 1 - index).toNat
decreasing_by omega

/-- The last index at or below `index` that is not dead, within the domain. -/
def settleDown (d : TimeDomain) (index : Int) : Except TimeError Int :=
  if _h : 0 ≤ index ∧ index ≤ d.maxIndex then
    match d.layout.decompose index.toNat with
    | .ok _ => .ok index
    | .error (.pattern (.deadSubPeriod _)) => d.settleDown (index - 1)
    | .error e => .error e
  else .error (.outOfRange index d.maxIndex)
termination_by (index + 1).toNat
decreasing_by omega

/-- The index itself if it is live; else the nearest live index in the adjustment's direction.
Without adjustment a dead index is refused. -/
def settle (d : TimeDomain) (index : Int) : Adjustment → Except TimeError Int
  | .none => do
    d.valid index
    let _ ← d.layout.decompose index.toNat
    pure index
  | .up => d.settleUp index
  | .down => d.settleDown index

/-- The index of a time. The time is normalised; its base period is moved off an OFF period of the
cycle if asked, and then to the first position of that period going up or its last going down;
otherwise its sub-period is located among the positions; finally a dead index is settled. -/
def pack (d : TimeDomain) (parts : TimeParts) (adjust : Adjustment) : Except TimeError Int := do
  let p ← parts.normalize
  let raw ← rawIndex p d.layout.base
  let (base, moved) ← d.layout.compressAdjusted raw adjust
  match d.layout.sub with
  | none =>
    d.valid base
    pure base
  | some s =>
    let index ←
      if moved then
        Word.within (.overflow .subPeriodAdjustment)
          (base * s.size + (if adjust = .down then (s.size : Int) - 1 else 0))
      else liftPat (s.locate base adjust p)
    d.settle index adjust

/-- The weekday of an index, for domains of a day or finer. -/
def dayOfWeek (d : TimeDomain) (index : Int) : Except TimeError Weekday := do
  if d.resolution.level < Resolution.day.level then throw (.coarseDayOfWeek d.resolution)
  let p ← d.unpack index
  let days ← liftCal (Gregorian.dayCount p.year p.month p.day)
  liftCal (Weekday.ofDayCount days)

/-- The time written down to the domain's resolution. -/
def format (d : TimeDomain) (p : TimeParts) : String := Text.formatTime p d.resolution

end TimeDomain

end Chronology
