import Chronology.Domain.Time

/-!
# Ranges of times

A range is an interval `[first, last]` of indices of one domain; an empty range is kept as
`[0, -1]`. Walking a range, from either end, visits the live indices only, so a range can hold
fewer times than indices.

## Main definitions

* `Range.ofTimes`, `Range.ofIndices`, `Range.empty`: the ways to build a range.
* `Range.union`, `Range.intersection`: of two ranges of one domain.
* `Range.Walk`: a walk over the live times of a range, from the front and from the back.
-/

namespace Chronology

/-- An interval of indices of a domain. -/
structure Range where
  domain : TimeDomain
  first : Int
  last : Int

namespace Range

/-- The interval from `first` to `last`, or the empty interval `[0, -1]` when `first` is above
`last`. -/
def canonical (d : TimeDomain) (first last : Int) : Range :=
  if last < first then ⟨d, 0, -1⟩ else ⟨d, first, last⟩

/-- The range between two times of one domain. -/
def ofTimes (a b : TimeIndex) : Except TimeError Range := do
  a.sameDomain b
  pure (canonical a.domain a.index b.index)

/-- The range between two indices; a non-empty one must lie within the domain. -/
def ofIndices (d : TimeDomain) (first last : Int) : Except TimeError Range := do
  if first ≤ last then
    d.valid first
    d.valid last
  pure (canonical d first last)

/-- The empty range of a domain. -/
def empty (d : TimeDomain) : Range := canonical d 0 (-1)

/-- A range is empty when its first index is above its last. -/
def isEmpty (r : Range) : Bool := decide (r.last < r.first)

/-- Indices in the range, live or not. -/
def length (r : Range) : Nat := if r.isEmpty then 0 else (r.last - r.first + 1).toNat

/-- The first index, unless the range is empty. -/
def firstIndex? (r : Range) : Option Int := if r.isEmpty then none else some r.first

/-- The last index, unless the range is empty. -/
def lastIndex? (r : Range) : Option Int := if r.isEmpty then none else some r.last

/-- A time lies in the range when its domain is the range's and its index is in the interval. -/
def contains (r : Range) (t : TimeIndex) : Bool :=
  decide (r.domain.Same t.domain) && decide (r.first ≤ t.index) && decide (t.index ≤ r.last)

/-- Two ranges are equal when their domains are the same and their bounds agree. -/
instance : BEq Range where
  beq r s := decide (r.domain.Same s.domain) && r.first == s.first && r.last == s.last

/-- A walk over the live times of a range: the indices not yet visited, if any. -/
structure Walk where
  domain : TimeDomain
  bounds : Option (Int × Int)

/-- The walk over the whole range. -/
def walk (r : Range) : Walk := ⟨r.domain, if r.isEmpty then none else some (r.first, r.last)⟩

namespace Walk

/-- A bound on the steps left: one more than the indices not yet visited. -/
def remaining (w : Walk) : Nat :=
  match w.bounds with
  | some (front, back) => (back - front + 1).toNat + 1
  | none => 0

/-- The next live time from the front, and the walk after it. -/
def next (w : Walk) : Option TimeIndex × Walk :=
  match h : w.bounds with
  | none => (none, w)
  | some (front, back) =>
    let rest : Walk := ⟨w.domain, if front < back then some (front + 1, back) else none⟩
    match w.domain.time front with
    | .ok t => (some t, rest)
    | .error _ =>
      have : rest.remaining < w.remaining := by
        simp only [remaining, h, rest]
        by_cases hfb : front < back
        · simp only [hfb, if_true]
          omega
        · simp [hfb]
      rest.next
termination_by w.remaining

/-- The next live time from the back, and the walk after it. -/
def nextBack (w : Walk) : Option TimeIndex × Walk :=
  match h : w.bounds with
  | none => (none, w)
  | some (front, back) =>
    let rest : Walk := ⟨w.domain, if front < back then some (front, back - 1) else none⟩
    match w.domain.time back with
    | .ok t => (some t, rest)
    | .error _ =>
      have : rest.remaining < w.remaining := by
        simp only [remaining, h, rest]
        by_cases hfb : front < back
        · simp only [hfb, if_true]
          omega
        · simp [hfb]
      rest.nextBack
termination_by w.remaining

/-- Up to `n` live times from the front. -/
def take (w : Walk) : Nat → List TimeIndex
  | 0 => []
  | n + 1 =>
    match w.next with
    | (some t, rest) => t :: rest.take n
    | (none, _) => []

/-- Up to `n` live times from the back. -/
def takeBack (w : Walk) : Nat → List TimeIndex
  | 0 => []
  | n + 1 =>
    match w.nextBack with
    | (some t, rest) => t :: rest.takeBack n
    | (none, _) => []

end Walk

/-- The first live time of the range. -/
def firstTime? (r : Range) : Option TimeIndex := r.walk.next.1

/-- The last live time of the range. -/
def lastTime? (r : Range) : Option TimeIndex := r.walk.nextBack.1

/-- The range written as its first and last live times, or `[]` when it has none. -/
def display (r : Range) : String :=
  match r.firstTime?, r.lastTime? with
  | some a, some b => "[" ++ a.text ++ ", " ++ b.text ++ "]"
  | _, _ => "[]"

/-- Refuses two ranges of different domains. -/
def sameDomain (r s : Range) : Except TimeError Unit :=
  if r.domain.Same s.domain then .ok ()
  else .error (.domainMismatch r.domain.display s.domain.display)

/-- The union of two ranges of one domain, which must overlap or touch unless one is empty. -/
def union (r s : Range) : Except TimeError Range := do
  r.sameDomain s
  if r.isEmpty then return s
  if s.isEmpty then return r
  let (low, high) := if r.first ≤ s.first then (r, s) else (s, r)
  if 1 < high.first - low.last then throw (.disjointRanges r.display s.display)
  pure (canonical r.domain low.first (max low.last high.last))

/-- The intersection of two ranges of one domain. -/
def intersection (r s : Range) : Except TimeError Range := do
  r.sameDomain s
  if r.isEmpty || s.isEmpty then return empty r.domain
  pure (canonical r.domain (max r.first s.first) (min r.last s.last))

end Range

end Chronology
