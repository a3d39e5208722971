import Chronology.Proofs.Order
import Chronology.Proofs.Utc
import Mathlib.Algebra.BigOperators.Group.Finset.Basic
import Mathlib.Data.Nat.Count

/-!
# Exact counts

Day counts and raw indices are counts: of the days from 1 January of year zero to a date, and of
the steps of a resolution from the first instant of the calendar to a time. The library computes
them through 400-year blocks, tables of month starts and products by the length of a day, and
refuses a count that does not fit a signed 64-bit word. This module states the counts without any
of that arithmetic and proves that the library's values are those counts, refused exactly when
they leave the word.

A date's count is the sum of the lengths of the years before it and of its day of the year, less
one. A time's count at a resolution of a day or finer is its instant, the nanoseconds from the
first instant of the calendar (`TimeParts.instant`), divided by the nanoseconds of one step and
rounded down; at a month or a year it is the months or years before it. The one guard of the
library that is not on the count itself is the one on the day count that finer counts are built
on: a day count too large for a word is refused first, and then every finer count is too large as
well.

## Main definitions

* `TimeParts.unitCount`: the exact number of steps of a resolution before a time.

## Main results

* `Gregorian.daysBeforeYear_eq_sum`: the days before a year are the lengths of the earlier years.
* `Gregorian.leapYears_eq_count`: the closed form of the leap years before a year is their count,
  and the days before a year of a block are the lengths of the years before it.
* `Gregorian.dayCount_dateOfDayCount_inverse`: day counts and dates are inverse to each other over
  the whole word, and a day count is the exact count or an overflow.
* `rawIndex_eq_unitCount`: the raw index of a normal time is its exact count, or an overflow
  exactly when the count leaves the word; every count in the word is that of the time
  `partsOfRaw` finds.
* `rawIndex_of_stamp_le`: a time before one with a raw index has one too.
-/

namespace Chronology

namespace Gregorian

/-! ### Day counts -/

theorem daysBeforeYear_zero : daysBeforeYear 0 = 0 := by decide

/-- The days before a year from zero on are the lengths of the years before it, added up. -/
theorem daysBeforeYear_eq_sum (n : Nat) :
    daysBeforeYear n = ∑ k ∈ Finset.range n, (daysInYear k : Int) := by
  induction n with
  | zero => simp [daysBeforeYear_zero]
  | succ n ih =>
    rw [Finset.sum_range_succ, ← ih, show ((n + 1 : Nat) : Int) = (n : Int) + 1 by omega,
      daysBeforeYear_succ]

/-! ### Leap years -/

/-- The closed form of the leap years before a year counts the leap years one year at a time:
each floor division steps exactly when its divisor divides the year that is added. -/
theorem leapYearsBefore_eq_count (n : Nat) :
    leapYearsBefore n = Nat.count (fun k => isLeap k = true) n := by
  induction n with
  | zero => rfl
  | succ n ih => rw [leapYearsBefore_succ, Nat.count_succ, ih]

/-- The days from the start of a 400-year block to one of its years are the lengths of the years
before it. -/
theorem daysBeforeYearInBlock_eq_sum (n : Nat) :
    daysBeforeYearInBlock n = ∑ k ∈ Finset.range n, daysInYear k := by
  induction n with
  | zero => rfl
  | succ n ih => rw [Finset.sum_range_succ, ← ih, daysBeforeYearInBlock_succ]

/-- **Leap years are counted exactly, from year zero.** The leap years before a year are the years
`k` from zero up to it for which `isLeap k` holds, year zero among them, and a year before zero is
refused; so the days from the start of a block to one of its years are the lengths of the years
before it. -/
theorem leapYears_eq_count :
    (∀ y : Int, leapYears y = if y < 0 then .error (.invalidYear y)
      else .ok (Nat.count (fun k => isLeap k = true) y.toNat)) ∧
    ∀ n : Nat, daysBeforeYearInBlock n = ∑ k ∈ Finset.range n, daysInYear k := by
  refine ⟨fun y => ?_, daysBeforeYearInBlock_eq_sum⟩
  by_cases hy : y < 0
  · simp [leapYears, checkYear, hy]
  · simp [leapYears, checkYear, hy, leapYearsBefore_eq_count]

/-- **Day counts and dates are inverse to each other over the whole word.** Every day count from
zero to the top of the word is the count of a date of the calendar, the one `dateOfDayCount` finds;
the count of every date of the calendar is the lengths of the years before it and its day of the
year, less one, refused as an overflow exactly when that leaves the word; and the date of a date's
count is that date. The count of the library is that sum, with the day of the year taken as one
number. -/
theorem dayCount_dateOfDayCount_inverse :
    (∀ days : Int, 0 ≤ days → days ≤ Word.max →
      ∃ y m d, dateOfDayCount days = .ok ⟨y, m, d⟩ ∧ checkDate y m d = .ok () ∧
        dayCount y m d = .ok days) ∧
    (∀ (y : Int) (m d : Nat), 0 ≤ y → 1 ≤ m → m ≤ 12 → 1 ≤ d → d ≤ monthLength (isLeap y) m →
      ∃ doy, dayOfYear y m d = .ok doy ∧
        dayCount y m d =
          if Word.Fits ((∑ k ∈ Finset.range y.toNat, (daysInYear k : Int)) + doy - 1) then
            .ok ((∑ k ∈ Finset.range y.toNat, (daysInYear k : Int)) + doy - 1)
          else .error (.overflow .dayCount)) ∧
    (∀ (y : Int) (m d : Nat) (n : Int), dayCount y m d = .ok n → dateOfDayCount n = .ok ⟨y, m, d⟩) := by
  refine ⟨fun days h0 hmax => ?_, fun y m d hy hm1 hm2 hd1 hd2 => ?_,
    fun y m d n h => dateOfDayCount_dayCount h⟩
  · obtain ⟨y, m, d, hdate, hvalid, -⟩ := dateOfDayCount_eq_ok h0
    exact ⟨y, m, d, hdate, hvalid,
      dayCount_dateOfDayCount hdate ⟨by simp only [Word.min]; omega, hmax⟩⟩
  · have hvalid := checkDate_eq_ok.2 ⟨hy, hm1, hm2, hd1, hd2⟩
    refine ⟨_, dayOfYear_eq_ok.2 ⟨hvalid, rfl⟩, ?_⟩
    have hsum : daysBeforeYear y + (daysBeforeMonth (isLeap y)).getD (m - 1) 0 + d - 1 =
        (∑ k ∈ Finset.range y.toNat, (daysInYear k : Int)) +
          ((daysBeforeMonth (isLeap y)).getD (m - 1) 0 + d : Nat) - 1 := by
      rw [← daysBeforeYear_eq_sum, Int.toNat_of_nonneg hy]
      omega
    rw [dayCount_eq_within hvalid, hsum]
    rfl

end Gregorian

/-! ### Steps of a resolution -/

namespace TimeParts

/-- The exact number of steps of a resolution from the first instant of the calendar to a time:
the years before it, the months before it, or its instant divided by the nanoseconds of a step of
a day or finer, rounded down. -/
def unitCount (p : TimeParts) : Resolution → Int
  | .year => p.year
  | .month => p.year * 12 + ((p.month : Int) - 1)
  | .day => p.instant / nanosPerDay
  | .hour => p.instant / (3600 * nanosPerSecond)
  | .min => p.instant / (60 * nanosPerSecond)
  | .sec => p.instant / nanosPerSecond
  | .msec => p.instant / 1000000
  | .usec => p.instant / 1000
  | .nsec => p.instant

variable {p : TimeParts}

/-- The instant of a time, with the lengths of a day and of a second written out. -/
theorem instant_eq (p : TimeParts) : p.instant = p.dayNumber * 86400000000000 +
    (((p.hour * 3600 + p.minute * 60 + p.second) * 1000000000 + p.nanos : Nat) : Int) := rfl

/-- The days of a normal time are its day number: its clock time lies within the day. -/
theorem unitCount_day (hp : p.Normal) : p.unitCount .day = p.dayNumber := by
  obtain ⟨-, hh, hm, hs, hn, -⟩ := hp
  simp only [unitCount, instant_eq, nanosPerDay, nanosPerSecond] at *
  omega

theorem unitCount_hour (hp : p.Normal) : p.unitCount .hour = p.dayNumber * 24 + p.hour := by
  obtain ⟨-, hh, hm, hs, hn, -⟩ := hp
  simp only [unitCount, instant_eq, nanosPerSecond] at *
  omega

theorem unitCount_min (hp : p.Normal) :
    p.unitCount .min = p.dayNumber * 1440 + ((p.hour * 60 + p.minute : Nat) : Int) := by
  obtain ⟨-, hh, hm, hs, hn, -⟩ := hp
  simp only [unitCount, instant_eq, nanosPerSecond] at *
  omega

/-- At a second or finer, the steps of a normal time are its whole seconds counted in units, and
the whole units of its fraction. -/
theorem unitCount_fine (hp : p.Normal) {r : Resolution} {u : Nat}
    (hr : r.unitsPerSecond = some u) :
    p.unitCount r = (p.dayNumber * 86400 + (ClockTime.seconds ⟨p.hour, p.minute, p.second⟩ : Nat)) *
      u + (p.nanos / (nanosPerSecond / u) : Nat) := by
  obtain ⟨-, hh, hm, hs, hn, -⟩ := hp
  cases r <;> simp only [Resolution.unitsPerSecond, reduceCtorEq, Option.some.injEq] at hr <;>
    subst hr <;> simp only [unitCount, instant_eq, nanosPerSecond, ClockTime.seconds] at * <;> omega

end TimeParts

open TimeParts

/-- At a second or finer, the raw index is taken on the day count of the time. -/
theorem rawIndex_fine_bind (p : TimeParts) {r : Resolution} {u : Nat}
    (hr : r.unitsPerSecond = some u) :
    rawIndex p r = (liftCal (Gregorian.dayCount p.year p.month p.day) >>= fun days =>
      Word.within (.overflow .calendarIndex)
        ((days * 86400 + (ClockTime.seconds ⟨p.hour, p.minute, p.second⟩ : Nat)) * u +
          (p.nanos / (nanosPerSecond / u) : Nat))) := by
  obtain ⟨hu, -⟩ := Resolution.unitsPerSecond_spec hr
  subst hu
  cases r <;> simp only [Resolution.unitsPerSecond, reduceCtorEq] at hr <;> rfl

/-- A count finer than a day is taken on the day count of the time: the day count is refused
first when it leaves the word, and then the count, which is at least the day count. -/
theorem dayCount_bind_within {p : TimeParts} (hp : p.Normal) {g : Int → Int}
    (hg : p.dayNumber ≤ g p.dayNumber) :
    (liftCal (Gregorian.dayCount p.year p.month p.day) >>= fun days =>
        Word.within (TimeError.overflow .calendarIndex) (g days)) =
      if g p.dayNumber ≤ Word.max then .ok (g p.dayNumber)
      else .error (if p.dayNumber ≤ Word.max then .overflow .calendarIndex
        else .calendar (.overflow .dayCount)) := by
  have h0 := dayNumber_nonneg hp.date
  rw [dayCount_eq_within hp.date, Word.within_of_nonneg _ h0]
  by_cases hD : p.dayNumber ≤ Word.max
  · simp only [if_pos hD, liftCal, Except.mapError, except_ok_bind,
      Word.within_of_nonneg _ (Int.le_trans h0 hg)]
  · simp only [if_neg hD, liftCal, Except.mapError, except_error_bind]
    rw [if_neg (by omega)]

/-- A count in units of a second is at least the days it is built on. -/
theorem le_fine_count {D : Int} (hD : 0 ≤ D) (s f : Nat) {u : Nat} (hu : 0 < u) :
    D ≤ (D * 86400 + s) * u + f := by
  have hu' : (D * 86400 + s) * 1 ≤ (D * 86400 + s) * u :=
    Int.mul_le_mul_of_nonneg_left (by omega) (by omega)
  omega

/-- At a second or finer, the raw index of a normal time is its count of steps, after the day
count it is built on. -/
theorem rawIndex_fine_eq {p : TimeParts} (hp : p.Normal) {r : Resolution} {u : Nat}
    (hr : r.unitsPerSecond = some u) :
    rawIndex p r = if p.unitCount r ≤ Word.max then .ok (p.unitCount r)
      else .error (if p.dayNumber ≤ Word.max then .overflow .calendarIndex
        else .calendar (.overflow .dayCount)) := by
  obtain ⟨-, hu, -⟩ := Resolution.unitsPerSecond_spec hr
  rw [unitCount_fine hp hr, rawIndex_fine_bind p hr,
    dayCount_bind_within hp (le_fine_count (dayNumber_nonneg hp.date) _ _ hu)]

/-- A result that is the count up to the top of the word and an overflow above it. -/
theorem count_or_overflow {x : Except TimeError Int} {c : Int} {e : TimeError}
    (he : e.kind = .overflow) (h : x = if c ≤ Word.max then .ok c else .error e) :
    (c ≤ Word.max → x = .ok c) ∧ (Word.max < c → ∃ e, x = .error e ∧ e.kind = .overflow) := by
  subst h
  refine ⟨fun hc => if_pos hc, fun hc => ⟨e, if_neg (by omega), he⟩⟩

/-- Both overflows a count finer than a day can meet are overflows. -/
theorem kind_dayCount_overflow (c : Prop) [Decidable c] :
    (if c then TimeError.overflow .calendarIndex else .calendar (.overflow .dayCount)).kind =
      .overflow := by
  split <;> rfl

/-- **The raw index of a normal time is its exact count of steps**, refused as an overflow
exactly when the count leaves the word. The year is taken as it is, so it must fit a word itself,
as the year of any time the library holds does. -/
theorem rawIndex_spec {p : TimeParts} (hp : p.Normal) (hy : p.year ≤ Word.max) (r : Resolution) :
    (p.unitCount r ≤ Word.max → rawIndex p r = .ok (p.unitCount r)) ∧
      (Word.max < p.unitCount r → ∃ e, rawIndex p r = .error e ∧ e.kind = .overflow) := by
  have h0 := dayNumber_nonneg hp.date
  obtain ⟨hy0, hm1, -, -, -⟩ := Gregorian.checkDate_eq_ok.1 hp.date
  cases r with
  | year => exact ⟨fun _ => rfl, fun hc => absurd hy (by simp only [unitCount] at hc; omega)⟩
  | month =>
    refine count_or_overflow (e := .overflow .calendarIndex) rfl ?_
    exact Word.within_of_nonneg _ (by omega)
  | day =>
    refine count_or_overflow (e := .calendar (.overflow .dayCount)) rfl ?_
    simp only [rawIndex, dayCount_eq_within hp.date, Word.within_of_nonneg _ h0, unitCount_day hp]
    split <;> rfl
  | hour =>
    refine count_or_overflow (kind_dayCount_overflow (p.dayNumber ≤ Word.max)) ?_
    rw [unitCount_hour hp, ← dayCount_bind_within hp (g := fun D => D * 24 + p.hour) (by omega)]
    rfl
  | min =>
    refine count_or_overflow (kind_dayCount_overflow (p.dayNumber ≤ Word.max)) ?_
    rw [unitCount_min hp,
      ← dayCount_bind_within hp (g := fun D => D * 1440 + ((p.hour * 60 + p.minute : Nat) : Int))
        (by omega)]
    rfl
  | sec | msec | usec | nsec =>
    all_goals exact count_or_overflow (kind_dayCount_overflow _) (rawIndex_fine_eq hp rfl)

/-- **Raw indices are exact counts of steps.** The raw index of a normal time whose year fits a word
is its count of steps of the resolution, and an overflow exactly when that count leaves the word;
and every count from zero to the top of the word is the count of the time at the start of its step
that `partsOfRaw` finds. The year of such a time is at most its count, which fits. -/
theorem rawIndex_eq_unitCount :
    (∀ (q : TimeParts) (r : Resolution), q.Normal → q.year ≤ Word.max →
      (q.unitCount r ≤ Word.max → rawIndex q r = .ok (q.unitCount r)) ∧
        (Word.max < q.unitCount r → ∃ e, rawIndex q r = .error e ∧ e.kind = .overflow)) ∧
    (∀ (n : Nat) (r : Resolution), (n : Int) ≤ Word.max →
      ∃ p, partsOfRaw n r = .ok p ∧ p.unitCount r = n ∧ p.truncate r = p) := by
  refine ⟨fun q r hq hy => rawIndex_spec hq hy r, fun n r hn => ?_⟩
  obtain ⟨p, hraw, hp, htr, hidx⟩ := partsOfRaw_spec n r
  have hindex := hidx hn
  have hy : p.year ≤ Word.max := Int.le_trans (year_le_rawIndex hp hindex) hn
  obtain ⟨hfit, hover⟩ := rawIndex_spec hp hy r
  refine ⟨p, hraw, ?_, htr⟩
  by_cases hc : p.unitCount r ≤ Word.max
  · exact Except.ok.inj ((hfit hc).symm.trans hindex)
  · obtain ⟨e, he, -⟩ := hover (by omega)
    rw [he] at hindex
    cases hindex

/-! ### Counts follow the order of times -/

namespace TimeParts

/-- A later date of the calendar has a larger day number. Within a year the day of the year decides;
across years the date falls before the end of its year, and the later year starts after that. -/
theorem dayNumber_lt_dayNumber {p q : TimeParts}
    (hp : Gregorian.checkDate p.year p.month p.day = .ok ())
    (hq : Gregorian.checkDate q.year q.month q.day = .ok ())
    (hlt : p.year < q.year ∨ p.year = q.year ∧ (p.month < q.month ∨ p.month = q.month ∧ p.day < q.day)) :
    p.dayNumber < q.dayNumber := by
  obtain ⟨-, -, hm2, -, hd2⟩ := Gregorian.checkDate_eq_ok.1 hp
  obtain ⟨-, -, hm2', hd1', -⟩ := Gregorian.checkDate_eq_ok.1 hq
  simp only [dayNumber]
  rcases hlt with hlt | ⟨hy, hlt⟩
  · have hend := Gregorian.daysBeforeMonth_add_le hm2 hd2
    have hyear := Gregorian.daysBeforeMonth_le (Gregorian.isLeap p.year) hm2 (Nat.le_refl 12)
    have hnext := Gregorian.daysBeforeYear_add_le hlt
    simp only [Gregorian.daysInYear] at hnext
    omega
  · rw [hy] at hd2 ⊢
    have := Gregorian.dayOfYear_lt hm2 hd2 hm2' hd1' hlt
    omega

/-- Of two normal times in stamp order, the first has the smaller instant. It is an earlier date, or
the same date at an earlier time of day. -/
theorem instant_le_of_stamp_le {p q : TimeParts} (hp : p.Normal) (hq : q.Normal)
    (h : p.stamp ≤ q.stamp) : p.instant ≤ q.instant := by
  obtain ⟨hm, hd, hh, hmi, hs, hn⟩ := hp.digits
  obtain ⟨hm', hd', hh', hmi', hs', hn'⟩ := hq.digits
  rw [instant_eq, instant_eq]
  unfold stamp at h
  have hcases : (p.year < q.year ∨ p.year = q.year ∧
      (p.month < q.month ∨ p.month = q.month ∧ p.day < q.day)) ∨
      p.year = q.year ∧ p.month = q.month ∧ p.day = q.day := by omega
  rcases hcases with hlt | ⟨hy, hmo, hda⟩
  · have := dayNumber_lt_dayNumber hp.date hq.date hlt
    omega
  · have hday : p.dayNumber = q.dayNumber := by simp only [dayNumber, hy, hmo, hda]
    omega

/-- **Counts follow the order of times**, at every resolution. -/
theorem unitCount_le_of_stamp_le {p q : TimeParts} (hp : p.Normal) (hq : q.Normal)
    (h : p.stamp ≤ q.stamp) (r : Resolution) : p.unitCount r ≤ q.unitCount r := by
  have hi := instant_le_of_stamp_le hp hq h
  obtain ⟨hm, hd, hh, hmi, hs, hn⟩ := hp.digits
  obtain ⟨hm', hd', hh', hmi', hs', hn'⟩ := hq.digits
  unfold stamp at h
  cases r with
  | year | month =>
    simp only [unitCount]
    omega
  | day | hour | min | sec | msec | usec =>
    all_goals exact Int.ediv_le_ediv (by decide) hi
  | nsec => exact hi

end TimeParts

open TimeParts in
/-- **A time before one with a raw index has a raw index**, at most the later one, when the year of
the later time fits a word. The later count fits, since the later raw index is no overflow, and the
earlier count is below it. -/
theorem rawIndex_of_stamp_le {p q : TimeParts} (hp : p.Normal) (hq : q.Normal)
    (h : p.stamp ≤ q.stamp) (hy : q.year ≤ Word.max) {r : Resolution} {b : Int}
    (hb : rawIndex q r = .ok b) : ∃ a, rawIndex p r = .ok a ∧ a ≤ b := by
  have hyear : p.year ≤ q.year := by
    obtain ⟨hm', hd', hh', hmi', hs', hn'⟩ := hq.digits
    unfold stamp at h
    omega
  obtain ⟨hqfit, hqover⟩ := rawIndex_spec hq hy r
  have hqle : q.unitCount r ≤ Word.max := by
    refine Int.not_lt.1 fun hover => ?_
    obtain ⟨e, he, -⟩ := hqover hover
    rw [he] at hb
    cases hb
  obtain rfl := Except.ok.inj ((hqfit hqle).symm.trans hb)
  have hcount := unitCount_le_of_stamp_le hp hq h r
  exact ⟨_, (rawIndex_spec hp (by omega) r).1 (by omega), hcount⟩

end Chronology
