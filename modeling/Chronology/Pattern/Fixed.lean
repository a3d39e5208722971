import Chronology.Pattern.Error
import Chronology.Calendar.Gregorian
import Chronology.Calendar.Clock
import Chronology.Calendar.Parts

/-!
# Fixed sub-periods

A base period divided into chosen sub-periods that are the same in every period: some months of
each year, some days of each month, or some seconds of each day. The chosen ranks are kept sorted,
and a sub-period is known by its position among them. A day rank above the length of a month names
no day of that month: the position is dead there.

## Main definitions

* `Pairing`: the three base periods with the sub-periods they can be divided into.
* `FixedRanks.make`: checks and sorts the chosen ranks.
* `FixedRanks.lookup`: where a time's sub-period stands among the ranks.
* `FixedRanks.fill`: the time of a position within a base period.
-/

namespace Chronology

/-- A base period together with the unit of the sub-periods chosen in it. -/
inductive Pairing where
  /-- Months of a year, ranked 1 to 12. -/
  | monthsOfYear
  /-- Days of a month, ranked 1 to 31. -/
  | daysOfMonth
  /-- Seconds of a day, ranked 0 to 86399. -/
  | secondsOfDay
deriving DecidableEq, Repr

namespace Pairing

/-- The unit of the base period. -/
def base : Pairing → Resolution
  | monthsOfYear => .year
  | daysOfMonth => .month
  | secondsOfDay => .day

/-- The unit of the sub-periods. -/
def sub : Pairing → Resolution
  | monthsOfYear => .month
  | daysOfMonth => .day
  | secondsOfDay => .sec

/-- The least rank of a sub-period. -/
def lowest : Pairing → Int
  | monthsOfYear => 1
  | daysOfMonth => 1
  | secondsOfDay => 0

/-- The greatest rank of a sub-period. -/
def highest : Pairing → Int
  | monthsOfYear => 12
  | daysOfMonth => 31
  | secondsOfDay => 86399

/-- The pairing of a base unit and a sub unit, when they form one. -/
def ofUnits? : Resolution → Resolution → Option Pairing
  | .year, .month => some monthsOfYear
  | .month, .day => some daysOfMonth
  | .day, .sec => some secondsOfDay
  | _, _ => none

end Pairing

/-- Where a value stands among the sorted positions of a pattern: at a position, or between the
`previous` position, if any, and the `next` one, which is the size when no position follows. -/
inductive Lookup where
  | found (position : Nat)
  | missing (next : Nat) (previous : Option Nat)
deriving DecidableEq, Repr

/-- Chosen sub-periods of a base period: at least one, each a sub-period of the base period,
sorted from the least and each given once. -/
structure FixedRanks where
  pairing : Pairing
  ranks : List Int
  ranks_ne_nil : ranks ≠ []
  sorted : ranks.Pairwise (· < ·)
  inRange : ∀ r ∈ ranks, pairing.lowest ≤ r ∧ r ≤ pairing.highest
deriving DecidableEq, Repr

namespace FixedRanks

/-- The first element of a list that equals the element after it. -/
def firstRepeat? : List Int → Option Int
  | a :: b :: rest => if a = b then some a else firstRepeat? (b :: rest)
  | _ => none

/-- A sorted list in which no element equals the next one increases strictly. -/
theorem pairwise_lt_of_firstRepeat?_eq_none :
    ∀ {l : List Int}, l.Pairwise (· ≤ ·) → firstRepeat? l = none → l.Pairwise (· < ·)
  | [], _, _ => List.Pairwise.nil
  | [_], _, _ => List.pairwise_singleton _ _
  | a :: b :: rest, hle, hrep => by
    have hab : a ≠ b := fun h => by simp [firstRepeat?, h] at hrep
    have hrest : firstRepeat? (b :: rest) = none := by simpa [firstRepeat?, hab] using hrep
    have ih := pairwise_lt_of_firstRepeat?_eq_none (List.Pairwise.of_cons hle) hrest
    refine List.Pairwise.cons (fun x hx => ?_) ih
    have hax : a ≤ x := List.rel_of_pairwise_cons hle hx
    rcases List.mem_cons.1 hx with rfl | hx
    · omega
    · have hbx : b < x := List.rel_of_pairwise_cons ih hx
      have hab' : a ≤ b := List.rel_of_pairwise_cons hle (List.mem_cons_self)
      omega

/-- Sorting by `≤` leaves each rank at most the next. -/
theorem pairwise_le_mergeSort (l : List Int) :
    (l.mergeSort fun a b => decide (a ≤ b)).Pairwise (· ≤ ·) := by
  have h : (l.mergeSort fun a b => decide (a ≤ b)).Pairwise fun a b => decide (a ≤ b) :=
    List.pairwise_mergeSort (fun _ _ _ hab hbc => by simp only [decide_eq_true_eq] at *; omega)
      (fun a b => by simp only [Bool.or_eq_true, decide_eq_true_eq]; omega) l
  simpa only [decide_eq_true_eq] using h

/-- Builds the pattern: the units must pair, the ranks must be given, differ and be sub-periods
of the base period, checked in this order and on the sorted ranks. -/
def make (base sub : Resolution) (ranks : List Int) : Except PatternError FixedRanks :=
  match Pairing.ofUnits? base sub with
  | none => .error (.unsupportedPairing base sub)
  | some pairing =>
    if hnil : ranks = [] then .error .emptyRanks
    else
      let sorted := ranks.mergeSort fun a b => decide (a ≤ b)
      match hrep : firstRepeat? sorted with
      | some r => .error (.duplicateRank r)
      | none =>
        match hout : sorted.find? fun r =>
            !(decide (pairing.lowest ≤ r) && decide (r ≤ pairing.highest)) with
        | some r => .error (.invalidRank r sub)
        | none =>
          have hperm : sorted.Perm ranks := List.mergeSort_perm _ _
          .ok ⟨pairing, sorted, fun h => hnil (List.Perm.eq_nil (h ▸ hperm.symm)),
            pairwise_lt_of_firstRepeat?_eq_none (pairwise_le_mergeSort ranks) hrep,
            fun r hr => by simpa using List.find?_eq_none.1 hout r hr⟩

/-- Where `value` stands among sorted, distinct ranks. -/
def locateAmong (ranks : List Int) (value : Int) : Lookup :=
  match ranks.idxOf? value with
  | some i => .found i
  | none =>
    let below := (ranks.filter fun r => decide (r < value)).length
    .missing below (if below = 0 then none else some (below - 1))

/-- The value a time has in the pattern's unit: its month, its day, or its second of the day. -/
def requested (p : FixedRanks) (parts : TimeParts) : Int :=
  match p.pairing with
  | .monthsOfYear => parts.month
  | .daysOfMonth => parts.day
  | .secondsOfDay => (ClockTime.seconds ⟨parts.hour, parts.minute, parts.second⟩ : Nat)

/-- The time's value in the pattern's unit, and where it stands among the ranks. -/
def lookup (p : FixedRanks) (parts : TimeParts) : Int × Lookup :=
  (p.requested parts, locateAmong p.ranks (p.requested parts))

/-- The time with its sub-period set to the one at `position`; a day that the month lacks is
dead. -/
def fill (p : FixedRanks) (position : Nat) (parts : TimeParts) :
    Except PatternError TimeParts := do
  let some rank := p.ranks[position]? | throw (.positionOutOfRange position p.ranks.length)
  match p.pairing with
  | .monthsOfYear => pure { parts with month := rank.toNat }
  | .daysOfMonth =>
    let last ← liftCalendar (Gregorian.daysInMonth parts.year parts.month)
    if (last : Int) < rank then throw (.deadSubPeriod position)
    pure { parts with day := rank.toNat }
  | .secondsOfDay =>
    let t ← liftCalendar (ClockTime.ofSeconds rank)
    pure { parts with hour := t.hour, minute := t.minute, second := t.second }

end FixedRanks

end Chronology
