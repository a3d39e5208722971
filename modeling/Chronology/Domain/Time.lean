import Chronology.Domain.Basic
import Chronology.Text.Scan

/-!
# Times of a domain

A `TimeIndex` is a live index of a domain together with the time it stands for. Times step by
indices within their domain, measure distances within it, move to other domains through their
time, and compare across domains by moving to the finer resolution of the two.

## Main definitions

* `TimeDomain.time`: the time of a live index.
* `TimeIndex.add`, `TimeIndex.sub`: steps and distances within a domain.
* `TimeIndex.convert`: the same time in another domain.
* `TimeIndex.compare`: chronological order across domains.
-/

namespace Chronology

/-- A live index of a domain and the time it stands for. -/
structure TimeIndex where
  domain : TimeDomain
  index : Int
  parts : TimeParts
  inBounds : 0 ≤ index ∧ index ≤ domain.maxIndex
  decompose_eq : domain.layout.decompose index.toNat = .ok parts

namespace TimeDomain

/-- The time of an index within the bounds whose position exists. -/
def time (d : TimeDomain) (index : Int) : Except TimeError TimeIndex :=
  if h : 0 ≤ index ∧ index ≤ d.maxIndex then
    match hp : d.layout.decompose index.toNat with
    | .ok parts => .ok ⟨d, index, parts, h, hp⟩
    | .error e => .error e
  else .error (.outOfRange index d.maxIndex)

/-- The time at an offset from the origin. -/
def timeAtOffset (d : TimeDomain) (offset : Int) : Except TimeError TimeIndex := do
  d.time (← Word.within (.overflow .offsetFromOrigin) (d.origin + offset))

/-- The time of the index of a time given field by field. -/
def timeOfParts (d : TimeDomain) (parts : TimeParts) (adjust : Adjustment) :
    Except TimeError TimeIndex := do
  d.time (← d.pack parts adjust)

/-- The time of the index of a written time. -/
def timeOfText (d : TimeDomain) (text : String) (adjust : Adjustment) :
    Except TimeError TimeIndex := do
  d.timeOfParts (← Text.scan text) adjust

/-- The first live time of the domain. -/
def minTime (d : TimeDomain) : Except TimeError TimeIndex := do
  d.time (← d.settle 0 .up)

/-- The time of the greatest index. -/
def maxTime (d : TimeDomain) : Except TimeError TimeIndex := d.time d.maxIndex

/-- The first live time whose offset fits a signed 32-bit word. -/
def minOffsetTime (d : TimeDomain) : Except TimeError TimeIndex := do
  let index ← d.settle d.minOffsetIndex .up
  let _ ← d.offsetOf index
  d.time index

/-- The last live time whose offset fits a signed 32-bit word. -/
def maxOffsetTime (d : TimeDomain) : Except TimeError TimeIndex := do
  let index ← d.settle d.maxOffsetIndex .down
  let _ ← d.offsetOf index
  d.time index

end TimeDomain

namespace TimeIndex

/-- The time written down to its domain's resolution. -/
def text (t : TimeIndex) : String := t.domain.format t.parts

/-- The index counted from the domain's origin. -/
def offset (t : TimeIndex) : Except TimeError Int := t.domain.offsetOf t.index

/-- The weekday of the time, for domains of a day or finer. -/
def dayOfWeek (t : TimeIndex) : Except TimeError Weekday := t.domain.dayOfWeek t.index

/-- Two times are equal when their domains are the same and their indices equal. -/
def Equal (a b : TimeIndex) : Prop := a.domain.Same b.domain ∧ a.index = b.index

instance (a b : TimeIndex) : Decidable (Equal a b) := inferInstanceAs (Decidable (_ ∧ _))

/-- The time `n` indices later (earlier for negative `n`) in the same domain. -/
def add (t : TimeIndex) (n : Int) : Except TimeError TimeIndex := do
  t.domain.time (← Word.within (.overflow .indexAddition) (t.index + n))

/-- Refuses two times of different domains. -/
def sameDomain (a b : TimeIndex) : Except TimeError Unit :=
  if a.domain.Same b.domain then .ok ()
  else .error (.domainMismatch a.domain.display b.domain.display)

/-- Indices from `b` to `a`, for two times of one domain. -/
def sub (a b : TimeIndex) : Except TimeError Int := do
  a.sameDomain b
  Word.within (.overflow .indexSubtraction) (a.index - b.index)

/-- The same time in another domain; the time itself when the domain is its own. -/
def convert (t : TimeIndex) (d : TimeDomain) (adjust : Adjustment) : Except TimeError TimeIndex :=
  if t.domain.Same d then .ok t else d.timeOfParts t.parts adjust

/-- Order of two times whose domains have one resolution: by index in one domain, else by index
in the unrestricted domain of that resolution. -/
def compareAt (a b : TimeIndex) (r : Resolution) : Except TimeError Ordering :=
  if a.domain.Same b.domain then .ok (Ord.compare a.index b.index)
  else do
    let a' ← a.convert (TimeDomain.unrestricted r) .none
    let b' ← b.convert (TimeDomain.unrestricted r) .none
    pure (Ord.compare a'.index b'.index)

/-- Chronological order of two times: by index in one domain; across domains, the coarser time
is first moved to the unrestricted domain of the finer resolution. -/
def compare (a b : TimeIndex) : Except TimeError Ordering :=
  if a.domain.Same b.domain then .ok (Ord.compare a.index b.index)
  else
    let mine := a.domain.resolution
    let theirs := b.domain.resolution
    if mine.level < theirs.level then do
      compareAt (← a.convert (TimeDomain.unrestricted theirs) .none) b theirs
    else if theirs.level < mine.level then do
      compareAt a (← b.convert (TimeDomain.unrestricted mine) .none) mine
    else compareAt a b mine

end TimeIndex

end Chronology
