import Chronology.Calendar.Rank
import Chronology.Proofs.Calendar.DayCount

/-!
# Ranked weekdays repeat every 400 years

The calendar repeats after 400 years: the leap years fall in the same places, and the 146097 days
of a cycle make a whole number of weeks, so each period begins on the same weekday as the period
400 years earlier. `dayByRank` therefore names the same day in a period as in the period 400
years before it. This is what lets a pattern of ranked weekdays be checked over one cycle and
trusted in every year.

## Main results

* `Gregorian.dayByRank_eq_ok`: what a successful `dayByRank` computed.
* `Gregorian.dayByRank_emod`: a rank names the day it names in the same period of the first
  cycle.
* `Gregorian.dayByRank_add_400`: a rank names the same day, or is refused alike, 400 years on.
* `Gregorian.dayByRank_of_dayByRank`: where one rank names a day, every rank within the bound
  of the period names one.
-/

namespace Chronology

namespace Weekday

/-- Day counts a whole number of weeks apart fall on the same weekday. -/
theorem ofDayCount_eq_of_emod {f g : Int} (hf : 0 ≤ f) (hg : 0 ≤ g) (h : f % 7 = g % 7) :
    ofDayCount f = ofDayCount g := by
  have hfg : (f.toNat + 5) % 7 = (g.toNat + 5) % 7 := by omega
  simp only [ofDayCount, if_neg (Int.not_lt.2 hf), if_neg (Int.not_lt.2 hg), ofIndex, hfg]

end Weekday

namespace Gregorian

/-! ### Shifting by whole cycles -/

/-- Moving a date back by whole 400-year cycles moves its day count back by whole cycles of
days. -/
theorem dayCount_emod {y : Int} {m d : Nat} {n : Int} (h : dayCount y m d = .ok n) :
    dayCount (y % 400) m d = .ok (n - y / 400 * daysPer400Years) := by
  obtain ⟨hdate, hfit, rfl⟩ := dayCount_eq_ok.1 h
  obtain ⟨hy, hm1, hm2, hd1, hd2⟩ := checkDate_eq_ok.1 hdate
  have h1 : y % 400 % 400 = y % 400 := by omega
  have h2 : y % 400 / 400 = 0 := by omega
  have hD : daysBeforeYear (y % 400) = daysBeforeYear y - y / 400 * daysPer400Years := by
    simp only [daysBeforeYear, h1, h2]
    omega
  have hD0 : 0 ≤ daysBeforeYear (y % 400) := by
    simp only [daysBeforeYear, h1, h2]
    omega
  refine dayCount_eq_ok.2
    ⟨checkDate_eq_ok.2 ⟨by omega, hm1, hm2, hd1, by rwa [isLeap_emod]⟩, ?_, ?_⟩
  · have hcycles : 0 ≤ y / 400 * (daysPer400Years : Int) :=
      Int.mul_nonneg (by omega) (Int.natCast_nonneg _)
    unfold Word.Fits Word.min at hfit ⊢
    constructor <;> omega
  · rw [hD, isLeap_emod]
    omega

theorem daysInMonth_emod (y : Int) (m : Nat) : daysInMonth (y % 400) m = daysInMonth y m := by
  simp only [daysInMonth, isLeap_emod]

theorem daysInYear_emod (y : Int) : daysInYear (y % 400) = daysInYear y := by
  simp only [daysInYear, isLeap_emod]

/-- The span of a period: the day count of its first day and its length in days. -/
theorem periodSpan_eq_ok {y : Int} {m : Nat} {f : Int} {len : Nat} :
    periodSpan y m = .ok (f, len) ↔
      dayCount y (if m = 0 then 1 else m) 1 = .ok f ∧
        (if m = 0 then .ok (daysInYear y) else daysInMonth y m) = .ok len := by
  unfold periodSpan
  split
  · cases dayCount y 1 1 <;> simp [eq_comm]
  · cases dayCount y m 1 <;> cases daysInMonth y m <;> simp

/-- The span of a month whose first day is counted: that day, and the month's length. -/
theorem periodSpan_month {y : Int} {m : Nat} (hm1 : 1 ≤ m) (hm2 : m ≤ 12) {f : Int}
    (hf : dayCount y m 1 = .ok f) : periodSpan y m = .ok (f, monthLength (isLeap y) m) :=
  periodSpan_eq_ok.2 ⟨by rwa [if_neg (by omega)], by rw [if_neg (by omega)]; exact daysInMonth_eq_ok hm1 hm2⟩

/-- The span of a year whose first day is counted: that day, and the year's length. -/
theorem periodSpan_year {y f : Int} (hf : dayCount y 1 1 = .ok f) :
    periodSpan y 0 = .ok (f, daysInYear y) :=
  periodSpan_eq_ok.2 ⟨by simpa using hf, by simp⟩

/-- Moving a period back by whole cycles keeps its length and moves its first day back by whole
cycles of days. -/
theorem periodSpan_emod {y : Int} {m : Nat} {f : Int} {len : Nat}
    (h : periodSpan y m = .ok (f, len)) :
    periodSpan (y % 400) m = .ok (f - y / 400 * daysPer400Years, len) := by
  obtain ⟨hf, hlen⟩ := periodSpan_eq_ok.1 h
  exact periodSpan_eq_ok.2 ⟨dayCount_emod hf, by rwa [daysInMonth_emod, daysInYear_emod]⟩

/-- A year 400 years on starts a whole cycle of days later. -/
theorem daysBeforeYear_add_400 (y : Int) :
    daysBeforeYear (y + 400) = daysBeforeYear y + daysPer400Years := by
  have h1 : (y + 400) / 400 = y / 400 + 1 := by omega
  have h2 : (y + 400) % 400 = y % 400 := by omega
  simp only [daysBeforeYear, h1, h2]
  rw [Int.add_mul, Int.one_mul]
  omega

theorem isLeap_add_400 (y : Int) : isLeap (y + 400) = isLeap y := by
  rw [← isLeap_emod, show (y + 400) % 400 = y % 400 by omega, isLeap_emod]

/-- Moving a date of a year from zero on forward by a whole cycle of years moves its day count
forward by a whole cycle of days: where the later date is counted, so is the earlier one. The
earlier count lies between zero and the later one. -/
theorem dayCount_add_400 {y : Int} {m d : Nat} {n : Int} (hy : 0 ≤ y)
    (h : dayCount (y + 400) m d = .ok n) : dayCount y m d = .ok (n - daysPer400Years) := by
  obtain ⟨hdate, hfit, rfl⟩ := dayCount_eq_ok.1 h
  obtain ⟨-, hm1, hm2, hd1, hd2⟩ := checkDate_eq_ok.1 hdate
  rw [isLeap_add_400] at hd2
  have hD0 : 0 ≤ daysBeforeYear y := Int.le_trans hy (le_daysBeforeYear hy)
  refine dayCount_eq_ok.2 ⟨checkDate_eq_ok.2 ⟨hy, hm1, hm2, hd1, hd2⟩, ?_, ?_⟩
  · unfold Word.Fits Word.min at hfit ⊢
    simp only [daysBeforeYear_add_400, isLeap_add_400] at hfit ⊢
    constructor <;> omega
  · rw [daysBeforeYear_add_400, isLeap_add_400]
    omega

theorem daysInMonth_add_400 (y : Int) (m : Nat) : daysInMonth (y + 400) m = daysInMonth y m := by
  simp only [daysInMonth, isLeap_add_400]

theorem daysInYear_add_400 (y : Int) : daysInYear (y + 400) = daysInYear y := by
  simp only [daysInYear, isLeap_add_400]

/-- A period of a year from zero on has the span of the same period 400 years on, a whole cycle
of days earlier. -/
theorem periodSpan_add_400 {y : Int} {m : Nat} {f : Int} {len : Nat} (hy : 0 ≤ y)
    (h : periodSpan (y + 400) m = .ok (f, len)) :
    periodSpan y m = .ok (f - daysPer400Years, len) := by
  obtain ⟨hf, hlen⟩ := periodSpan_eq_ok.1 h
  exact periodSpan_eq_ok.2
    ⟨dayCount_add_400 hy hf, by rwa [daysInMonth_add_400, daysInYear_add_400] at hlen⟩

/-! ### Ranks -/

/-- What a successful `dayByRank` computed: the span of the period, a rank within the bound of
the period, the weekday of the first day, and the ranked day of that period. -/
theorem dayByRank_eq_ok {y : Int} {m : Nat} {w : Weekday} {r : Int} {d : Nat} :
    dayByRank y m w r = .ok d ↔
      ∃ f len fw, periodSpan y m = .ok (f, len) ∧ r ≠ 0 ∧ r.natAbs ≤ maxRankIn m ∧
        Weekday.ofDayCount f = .ok fw ∧ d = rankedDay fw len w r := by
  unfold dayByRank
  constructor
  · intro h
    obtain ⟨⟨f, len⟩, hspan, h⟩ := bind_eq_ok.1 h
    dsimp only at h
    split at h
    · cases h
    · obtain ⟨fw, hfw, h⟩ := bind_eq_ok.1 h
      cases h
      exact ⟨f, len, fw, hspan, by omega, by omega, hfw, rfl⟩
  · rintro ⟨f, len, fw, hspan, hr0, hr, hfw, rfl⟩
    rw [hspan, except_ok_bind]
    dsimp only
    rw [if_neg (by omega)]
    simp [hfw]

/-- **A rank names the day it names 400 years earlier**, and so the day it names in the same
period of the first cycle. -/
theorem dayByRank_emod {y : Int} {m : Nat} {w : Weekday} {r : Int} {d : Nat}
    (h : dayByRank y m w r = .ok d) : dayByRank (y % 400) m w r = .ok d := by
  obtain ⟨f, len, fw, hspan, hr0, hr, hfw, rfl⟩ := dayByRank_eq_ok.1 h
  have hf0 : 0 ≤ f := dayCount_nonneg (periodSpan_eq_ok.1 hspan).1
  have hf0' : 0 ≤ f - y / 400 * daysPer400Years :=
    dayCount_nonneg (periodSpan_eq_ok.1 (periodSpan_emod hspan)).1
  have hweek : Weekday.ofDayCount (f - y / 400 * daysPer400Years) = .ok fw := by
    rw [Weekday.ofDayCount_eq_of_emod hf0' hf0 (by simp only [daysPer400Years]; omega), hfw]
  exact dayByRank_eq_ok.2 ⟨_, len, fw, periodSpan_emod hspan, hr0, hr, hweek, rfl⟩

/-- **A rank names the same day 400 years later**, and refuses it alike: in every year from zero
on whose period 400 years later has a span, the period's span and the weekday of its first day are
those of the later period. -/
theorem dayByRank_add_400 {y : Int} {m : Nat} (hy : 0 ≤ y) {s : Int × Nat}
    (hs : periodSpan (y + 400) m = .ok s) (w : Weekday) (r : Int) :
    dayByRank (y + 400) m w r = dayByRank y m w r := by
  obtain ⟨f, len⟩ := s
  have hs' := periodSpan_add_400 hy hs
  have hf0 : 0 ≤ f - daysPer400Years := dayCount_nonneg (periodSpan_eq_ok.1 hs').1
  have hweek : Weekday.ofDayCount (f - daysPer400Years) = Weekday.ofDayCount f :=
    Weekday.ofDayCount_eq_of_emod hf0 (by omega) (by simp only [daysPer400Years]; omega)
  simp only [dayByRank, hs, hs', except_ok_bind, hweek]

/-- A ranked day is a day of the period, or 0. -/
theorem rankedDay_le (fw : Weekday) (len : Nat) (w : Weekday) (r : Int) :
    rankedDay fw len w r ≤ len := by
  unfold rankedDay
  dsimp only
  split_ifs <;> omega

/-- Ranked days are named only in years of the calendar, from zero on. -/
theorem dayByRank_year_nonneg {y : Int} {m : Nat} {w : Weekday} {r : Int} {d : Nat}
    (h : dayByRank y m w r = .ok d) : 0 ≤ y := by
  obtain ⟨f, len, fw, hspan, -⟩ := dayByRank_eq_ok.1 h
  exact (checkDate_eq_ok.1 (dayCount_eq_ok.1 (periodSpan_eq_ok.1 hspan).1).1).1

/-- A ranked day is a day of its period, or 0. -/
theorem dayByRank_le {y : Int} {m : Nat} {w : Weekday} {r : Int} {d : Nat}
    (h : dayByRank y m w r = .ok d) : ∃ f len, periodSpan y m = .ok (f, len) ∧ d ≤ len := by
  obtain ⟨f, len, fw, hspan, -, -, -, rfl⟩ := dayByRank_eq_ok.1 h
  exact ⟨f, len, hspan, rankedDay_le fw len w r⟩

/-- **Where one rank names a day, so does every rank within the bound of the period**: the span
and the first weekday of a period do not depend on the rank. -/
theorem dayByRank_of_dayByRank {y : Int} {m : Nat} {w w' : Weekday} {r r' : Int} {d : Nat}
    (h : dayByRank y m w r = .ok d) (hr0 : r' ≠ 0) (hr : r'.natAbs ≤ maxRankIn m) :
    ∃ d', dayByRank y m w' r' = .ok d' := by
  obtain ⟨f, len, fw, hspan, -, -, hfw, -⟩ := dayByRank_eq_ok.1 h
  exact ⟨_, dayByRank_eq_ok.2 ⟨f, len, fw, hspan, hr0, hr, hfw, rfl⟩⟩

/-- **A rank within the bound of a period names a day of it, or 0**, once the period has a span:
the weekday of a first day from zero on is known. -/
theorem dayByRank_of_periodSpan {y : Int} {m : Nat} {f : Int} {len : Nat}
    (hspan : periodSpan y m = .ok (f, len)) (w : Weekday) {r : Int} (hr0 : r ≠ 0)
    (hr : r.natAbs ≤ maxRankIn m) : ∃ d, dayByRank y m w r = .ok d ∧ d ≤ len := by
  have hf : 0 ≤ f := dayCount_nonneg (periodSpan_eq_ok.1 hspan).1
  have hfw : Weekday.ofDayCount f = .ok (Weekday.ofIndex (f.toNat + 5)) := by
    simp [Weekday.ofDayCount, Int.not_lt.2 hf]
  exact ⟨_, dayByRank_eq_ok.2 ⟨f, len, _, hspan, hr0, hr, hfw, rfl⟩, rankedDay_le _ _ _ _⟩

end Gregorian

end Chronology
