/-!
# Signed 64-bit words

Indices, day counts and years are integers that the library keeps inside the signed 64-bit range
`[-2^63, 2^63 - 1]`. Arithmetic is done exactly in `Int`, and a result outside the range is an
overflow, reported with the `Computation` that produced it. Keeping the arithmetic exact and the
range a separate predicate lets a statement about an index be a statement about integers.

## Main definitions

* `Word.min`, `Word.max`: the ends of the range, and `Word.Fits` for an integer between them.
* `Computation`: the computations whose overflow the library reports, with their names.
* `Word.within`: an exact result when it fits, the given error otherwise.
-/

namespace Chronology

/-- The computations whose results must fit the signed 64-bit range. An overflow names the one
that failed. -/
inductive Computation where
  /-- Days since the first day of the calendar. -/
  | dayCount
  /-- A dense cycle position mapped back to its raw position. -/
  | cycleExpansion
  /-- A base period scaled by the sub-period count, plus a position. -/
  | subPeriodAdjustment
  /-- The day after a time written as `24:00`. -/
  | midnightRollover
  /-- Days carried while removing a UTC offset. -/
  | offsetCarry
  /-- The raw calendar index of a time at a resolution. -/
  | calendarIndex
  /-- One step up while looking for an admissible time. -/
  | upwardAdjustment
  /-- An index given as an offset from a domain's origin. -/
  | offsetFromOrigin
  /-- A time moved forward or back by a number of indices. -/
  | indexAddition
  /-- The distance between two times. -/
  | indexSubtraction
deriving DecidableEq, Repr

/-- The words an overflow message uses for the computation. -/
def Computation.description : Computation → String
  | .dayCount => "day count"
  | .cycleExpansion => "cycle expansion"
  | .subPeriodAdjustment => "sub-period adjustment"
  | .midnightRollover => "midnight rollover"
  | .offsetCarry => "offset carry"
  | .calendarIndex => "calendar index"
  | .upwardAdjustment => "upward adjustment"
  | .offsetFromOrigin => "offset from origin"
  | .indexAddition => "index addition"
  | .indexSubtraction => "index subtraction"

namespace Word

/-- The least signed 64-bit integer, `-2^63`. -/
def min : Int := -9223372036854775808

/-- The greatest signed 64-bit integer, `2^63 - 1`. -/
def max : Int := 9223372036854775807

/-- An integer fits a word when it lies in `[min, max]`. -/
def Fits (x : Int) : Prop := min ≤ x ∧ x ≤ max

instance (x : Int) : Decidable (Fits x) := inferInstanceAs (Decidable (_ ∧ _))

/-- The integer itself when it fits a word, and the error `e` when it does not. -/
def within {ε : Type} (e : ε) (x : Int) : Except ε Int :=
  if Fits x then .ok x else .error e

/-- The least signed 32-bit integer, `-2^31`. -/
def min32 : Int := -2147483648

/-- The greatest signed 32-bit integer, `2^31 - 1`. -/
def max32 : Int := 2147483647

/-- An integer fits a half word when it lies in `[min32, max32]`. -/
def Fits32 (x : Int) : Prop := min32 ≤ x ∧ x ≤ max32

instance (x : Int) : Decidable (Fits32 x) := inferInstanceAs (Decidable (_ ∧ _))

theorem within_of_fits {ε : Type} (e : ε) {x : Int} (h : Fits x) : within e x = .ok x := by
  simp [within, h]

theorem within_of_not_fits {ε : Type} (e : ε) {x : Int} (h : ¬ Fits x) :
    within e x = .error e := by
  simp [within, h]

end Word

end Chronology
