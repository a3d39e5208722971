import Chronology.Proofs.RawIndex
import Chronology.Proofs.Calendar.Rank

/-!
# Chronological order of times

A time given field by field comes before another when its fields do, compared from the year down
to the nanoseconds. `TimeParts.compareTime` is that lexicographic comparison. This module shows
that the calendar's numberings follow it: day counts follow the order of dates, raw indices the
order of times, and the first instants of raw indices the order of the indices.

## A time as one number

The fields of a normal time are bounded: 12 months, 31 days, 24 hours and so on. Read as the
digits of a numeral whose radices leave room for every field (13, 32, 24, 60, 60 and 10^9), a
normal time becomes one number, its `stamp`, and lexicographic order becomes the order of stamps
(`compareTime_eq`, from `compare_radix` applied digit by digit). The stamp is linear in the
fields with constant coefficients, so every order fact below reduces to arithmetic that `omega`
decides once the calendar's own facts are stated.

## Main definitions

* `TimeParts.compareTime`: chronological order of two times.
* `TimeParts.stamp`: a normal time as one number.

## Main results

* `TimeParts.compareTime_eq`: on normal times, chronological order is the order of stamps.
* `Gregorian.dayCount_lt_iff`: day counts follow the order of dates.
* `rawIndex_le_of_stamp_le`: raw indices follow the order of times.
* `stamp_lt_of_partsOfRaw`: the first instants of raw indices follow the order of the indices.
-/

namespace Chronology

/-! ### Comparing numerals -/

/-- Two comparisons of integers agree when the differences compared do. -/
theorem compare_eq_of_sub_eq {a b c d : Int} (h : a - b = c - d) : compare a b = compare c d := by
  rcases Int.lt_trichotomy a b with hab | hab | hab
  · rw [Int.compare_eq_lt.2 hab, Int.compare_eq_lt.2 (by omega)]
  · rw [Int.compare_eq_eq.2 hab, Int.compare_eq_eq.2 (by omega)]
  · rw [Int.compare_eq_gt.2 hab, Int.compare_eq_gt.2 (by omega)]

/-- Numerals whose last digits are below the radix compare by their leading parts, then by their
last digits. -/
theorem compare_radix {a a' x x' B : Int} (hx : 0 ≤ x ∧ x < B) (hx' : 0 ≤ x' ∧ x' < B) :
    compare (a * B + x) (a' * B + x') = (compare a a').then (compare x x') := by
  rcases Int.lt_trichotomy a a' with h | rfl | h
  · have hB : (a + 1) * B ≤ a' * B := Int.mul_le_mul_of_nonneg_right (by omega) (by omega)
    rw [Int.add_mul, Int.one_mul] at hB
    rw [Int.compare_eq_lt.2 h, Int.compare_eq_lt.2 (by omega)]
    rfl
  · rw [Int.compare_eq_eq.2 rfl, Ordering.eq_then]
    exact compare_eq_of_sub_eq (by omega)
  · have hB : (a' + 1) * B ≤ a * B := Int.mul_le_mul_of_nonneg_right (by omega) (by omega)
    rw [Int.add_mul, Int.one_mul] at hB
    rw [Int.compare_eq_gt.2 h, Int.compare_eq_gt.2 (by omega)]
    rfl

namespace Gregorian

/-! ### Day counts follow the order of dates -/

/-- No month is longer than 31 days. -/
theorem monthLength_le (leap : Bool) : ∀ m ≤ 12, monthLength leap m ≤ 31 := by
  cases leap <;> decide

/-- Each year starts where the year before it ends. After the last year of a block the next year
starts the next block. -/
theorem daysBeforeYear_succ (y : Int) :
    daysBeforeYear (y + 1) = daysBeforeYear y + daysInYear y := by
  unfold daysBeforeYear
  rw [← daysInYear_emod y]
  by_cases hend : y % 400 = 399
  · have h1 : (y + 1) / 400 = y / 400 + 1 := by omega
    have h2 : (y + 1) % 400 = 0 := by omega
    have hlast : daysBeforeYearInBlock (Int.toNat 399) + daysInYear 399 = 146097 := by decide
    have hfirst : daysBeforeYearInBlock (Int.toNat 0) = 0 := by decide
    rw [h1, h2, hend, hfirst]
    simp only [daysPer400Years]
    omega
  · have h1 : (y + 1) / 400 = y / 400 := by omega
    have h2 : ((y + 1) % 400).toNat = (y % 400).toNat + 1 := by omega
    have h3 : (((y % 400).toNat : Nat) : Int) = y % 400 := Int.toNat_of_nonneg (by omega)
    rw [h1, h2, daysBeforeYearInBlock_succ, h3]
    omega

/-- A later year starts after the end of an earlier one. -/
theorem daysBeforeYear_add_le {y y' : Int} (h : y < y') :
    daysBeforeYear y + daysInYear y ≤ daysBeforeYear y' := by
  obtain ⟨k, rfl⟩ : ∃ k : Nat, y' = y + 1 + k := ⟨(y' - y - 1).toNat, by omega⟩
  induction k with
  | zero => simp [daysBeforeYear_succ]
  | succ k ih =>
    have hstep := daysBeforeYear_succ (y + 1 + k)
    rw [show y + 1 + ((k + 1 : Nat) : Int) = y + 1 + k + 1 by omega, hstep]
    have := ih (by omega)
    omega

/-- A day of a month falls within the month's span of days of the year. -/
theorem daysBeforeMonth_add_le {leap : Bool} {m d : Nat} (hm2 : m ≤ 12)
    (hd : d ≤ monthLength leap m) :
    (daysBeforeMonth leap).getD (m - 1) 0 + d ≤ (daysBeforeMonth leap).getD m 0 := by
  have := daysBeforeMonth_le leap (Nat.sub_le m 1) hm2
  simp only [monthLength] at hd
  omega

/-- Days of the year follow the order of months and days. -/
theorem dayOfYear_lt {leap : Bool} {m d m' d' : Nat} (hm2 : m ≤ 12)
    (hd : d ≤ monthLength leap m) (hm2' : m' ≤ 12) (hd1' : 1 ≤ d')
    (h : m < m' ∨ m = m' ∧ d < d') :
    (daysBeforeMonth leap).getD (m - 1) 0 + d < (daysBeforeMonth leap).getD (m' - 1) 0 + d' := by
  rcases h with h | ⟨rfl, h⟩
  · have hend := daysBeforeMonth_add_le hm2 hd
    have hnext := daysBeforeMonth_le leap (show m ≤ m' - 1 by omega) (by omega)
    omega
  · omega

/-- A later date has a larger day count. A date falls before the end of its year, and a later year
starts after that. -/
theorem dayCount_lt_dayCount {y y' : Int} {m m' d d' : Nat} {n n' : Int}
    (h : dayCount y m d = .ok n) (h' : dayCount y' m' d' = .ok n')
    (hlt : y < y' ∨ y = y' ∧ (m < m' ∨ m = m' ∧ d < d')) : n < n' := by
  obtain ⟨hdate, -, rfl⟩ := dayCount_eq_ok.1 h
  obtain ⟨hdate', -, rfl⟩ := dayCount_eq_ok.1 h'
  obtain ⟨hy, hm1, hm2, hd1, hd2⟩ := checkDate_eq_ok.1 hdate
  obtain ⟨hy', hm1', hm2', hd1', hd2'⟩ := checkDate_eq_ok.1 hdate'
  rcases hlt with hlt | ⟨rfl, hlt⟩
  · have hend := daysBeforeMonth_add_le hm2 hd2
    have hyear := daysBeforeMonth_le (isLeap y) hm2 (Nat.le_refl 12)
    have hnext := daysBeforeYear_add_le hlt
    simp only [daysInYear] at hnext
    omega
  · have := dayOfYear_lt hm2 hd2 hm2' hd1' hlt
    omega

/-- **Day counts follow the order of dates.** Otherwise the other date is the same or earlier. -/
theorem dayCount_lt_iff {y y' : Int} {m m' d d' : Nat} {n n' : Int}
    (h : dayCount y m d = .ok n) (h' : dayCount y' m' d' = .ok n') :
    n < n' ↔ y < y' ∨ y = y' ∧ (m < m' ∨ m = m' ∧ d < d') := by
  refine ⟨fun hlt => ?_, dayCount_lt_dayCount h h'⟩
  by_contra hge
  have hcases : (y' < y ∨ y' = y ∧ (m' < m ∨ m' = m ∧ d' < d)) ∨ (y' = y ∧ m' = m ∧ d' = d) := by
    omega
  rcases hcases with hgt | ⟨hy, hm, hd⟩
  · have := dayCount_lt_dayCount h' h hgt
    omega
  · subst hy hm hd
    rw [h] at h'
    cases h'
    omega

/-- What a successful `monthAndDay` found: a month of the year, a day of that month, and the day of
the year they make. -/
theorem monthAndDay_eq_ok {leap : Bool} {doy m d : Nat} (h : monthAndDay doy leap = .ok (m, d)) :
    1 ≤ m ∧ m ≤ 12 ∧ 1 ≤ d ∧ d ≤ monthLength leap m ∧
      (daysBeforeMonth leap).getD (m - 1) 0 + d = doy := by
  have hrange : 1 ≤ doy ∧ doy ≤ (daysBeforeMonth leap).getD 12 0 := by
    unfold monthAndDay at h
    dsimp only at h
    split at h
    · simp at h
    · omega
  obtain ⟨m', d', h', hspec⟩ := monthAndDay_spec leap doy hrange.1 hrange.2
  rw [h] at h'
  obtain ⟨rfl, rfl⟩ := Prod.mk.inj (Except.ok.inj h')
  exact hspec

/-- Later days of the year fall on later months, or later days of one month. Otherwise the later day
of the year would come first, or be the same. -/
theorem monthAndDay_lt {leap : Bool} {doy doy' m d m' d' : Nat}
    (h : monthAndDay doy leap = .ok (m, d)) (h' : monthAndDay doy' leap = .ok (m', d'))
    (hlt : doy < doy') : m < m' ∨ m = m' ∧ d < d' := by
  obtain ⟨hm1, hm2, hd1, hd2, rfl⟩ := monthAndDay_eq_ok h
  obtain ⟨hm1', hm2', hd1', hd2', rfl⟩ := monthAndDay_eq_ok h'
  by_contra hge
  have hcases : (m' < m ∨ m' = m ∧ d' < d) ∨ m' = m ∧ d' = d := by omega
  rcases hcases with hgt | ⟨rfl, rfl⟩
  · have := dayOfYear_lt hm2' hd2' hm2 hd1 hgt
    omega
  · omega

end Gregorian

namespace TimeParts

/-! ### The order of times -/

/-- The fields that place a time, from the most significant: year, month, day, hour, minute,
second and nanoseconds. The offset is not among them: a time is compared as given. -/
def fields (p : TimeParts) : List Int :=
  [p.year, p.month, p.day, p.hour, p.minute, p.second, p.nanos]

/-- Chronological order of times given field by field: their fields compared lexicographically. -/
def compareTime (p q : TimeParts) : Ordering := compare p.fields q.fields

theorem compareTime_swap (p q : TimeParts) : q.compareTime p = (p.compareTime q).swap :=
  Std.OrientedOrd.eq_swap

/-- A time as one number: its fields, from the year down, as the digits of a mixed-radix numeral
with room for every field of a normal time. -/
def stamp (p : TimeParts) : Int :=
  (((((p.year * 13 + p.month) * 32 + p.day) * 24 + p.hour) * 60 + p.minute) * 60 + p.second) *
    1000000000 + p.nanos

/-- The fields of a normal time below the year fit their digits of the stamp. -/
theorem Normal.digits {p : TimeParts} (hp : p.Normal) :
    p.month < 13 ∧ p.day < 32 ∧ p.hour < 24 ∧ p.minute < 60 ∧ p.second < 60 ∧
      p.nanos < 1000000000 := by
  obtain ⟨-, -, hm2, -, hd2⟩ := Gregorian.checkDate_eq_ok.1 hp.date
  have := Gregorian.monthLength_le (Gregorian.isLeap p.year) p.month hm2
  have hn := hp.nanos_lt
  simp only [nanosPerSecond] at hn
  have := hp.hour_le
  have := hp.minute_le
  have := hp.second_le
  omega

/-- **On normal times, chronological order is the order of stamps.** -/
theorem compareTime_eq {p q : TimeParts} (hp : p.Normal) (hq : q.Normal) :
    p.compareTime q = compare p.stamp q.stamp := by
  obtain ⟨hm, hd, hh, hmi, hs, hn⟩ := hp.digits
  obtain ⟨hm', hd', hh', hmi', hs', hn'⟩ := hq.digits
  rw [compareTime, stamp, stamp, compare_radix, compare_radix, compare_radix, compare_radix,
    compare_radix, compare_radix]
  · simp only [fields, List.compare_cons_cons, List.compare_nil_nil, Ordering.then_eq,
      Ordering.then_assoc]
  all_goals omega

/-- Cutting two normal times down to a resolution keeps their order. -/
theorem stamp_truncate_le {p q : TimeParts} (hp : p.Normal) (hq : q.Normal)
    (h : p.stamp ≤ q.stamp) (r : Resolution) : (p.truncate r).stamp ≤ (q.truncate r).stamp := by
  obtain ⟨hm, hd, hh, hmi, hs, hn⟩ := hp.digits
  obtain ⟨hm', hd', hh', hmi', hs', hn'⟩ := hq.digits
  unfold stamp at h ⊢
  cases r <;> simp only [truncate] <;> omega

/-- A time cut down to a resolution is unchanged by cutting it down to a finer one. -/
theorem truncate_truncate (p : TimeParts) {r s : Resolution} (h : r.level ≤ s.level) :
    (p.truncate r).truncate s = p.truncate r := by
  cases r <;> cases s <;> simp only [Resolution.level] at h <;>
    simp only [truncate, TimeParts.mk.injEq, and_true, true_and] <;> omega

/-- Of two normal times in stamp order, the earlier date has the smaller day count; on one date,
the earlier time of day comes first. -/
theorem dayCount_le_of_stamp_le {p q : TimeParts} (hp : p.Normal) (hq : q.Normal)
    (h : p.stamp ≤ q.stamp) {dp dq : Int} (hdp : Gregorian.dayCount p.year p.month p.day = .ok dp)
    (hdq : Gregorian.dayCount q.year q.month q.day = .ok dq) :
    dp < dq ∨ dp = dq ∧ p.hour * 3600000000000 + p.minute * 60000000000 + p.second * 1000000000 +
      p.nanos ≤ q.hour * 3600000000000 + q.minute * 60000000000 + q.second * 1000000000 + q.nanos := by
  obtain ⟨hm, hd, hh, hmi, hs, hn⟩ := hp.digits
  obtain ⟨hm', hd', hh', hmi', hs', hn'⟩ := hq.digits
  unfold stamp at h
  have hcases : (p.year < q.year ∨ p.year = q.year ∧ (p.month < q.month ∨ p.month = q.month ∧
      p.day < q.day)) ∨ p.year = q.year ∧ p.month = q.month ∧ p.day = q.day ∧
      p.hour * 3600000000000 + p.minute * 60000000000 + p.second * 1000000000 + p.nanos ≤
        q.hour * 3600000000000 + q.minute * 60000000000 + q.second * 1000000000 + q.nanos := by
    omega
  rcases hcases with hlt | ⟨hy, hm, hd, hclock⟩
  · exact .inl (Gregorian.dayCount_lt_dayCount hdp hdq hlt)
  · rw [hy, hm, hd, hdq] at hdp
    exact .inr ⟨(Except.ok.inj hdp).symm, hclock⟩

end TimeParts

open TimeParts

/-! ### Raw indices follow the order of times -/

/-- **Raw indices follow the order of times.** -/
theorem rawIndex_le_of_stamp_le {p q : TimeParts} (hp : p.Normal) (hq : q.Normal)
    (h : p.stamp ≤ q.stamp) {r : Resolution} {a b : Int} (ha : rawIndex p r = .ok a)
    (hb : rawIndex q r = .ok b) : a ≤ b := by
  obtain ⟨hm, hd, hh, hmi, hs, hn⟩ := hp.digits
  obtain ⟨hm', hd', hh', hmi', hs', hn'⟩ := hq.digits
  cases r with
  | year =>
    simp only [rawIndex, except_pure_eq, Except.ok.injEq] at ha hb
    unfold stamp at h
    omega
  | month =>
    simp only [rawIndex, Word.within_eq_ok] at ha hb
    unfold stamp at h
    omega
  | day =>
    simp only [rawIndex, liftCal_eq_ok] at ha hb
    have := dayCount_le_of_stamp_le hp hq h ha hb
    omega
  | hour | min =>
    all_goals
      simp only [rawIndex] at ha hb
      obtain ⟨dp, hdp, ha⟩ := bind_eq_ok.1 ha
      obtain ⟨dq, hdq, hb⟩ := bind_eq_ok.1 hb
      obtain ⟨-, rfl⟩ := Word.within_eq_ok.1 ha
      obtain ⟨-, rfl⟩ := Word.within_eq_ok.1 hb
      have := dayCount_le_of_stamp_le hp hq h (liftCal_eq_ok.1 hdp) (liftCal_eq_ok.1 hdq)
      omega
  | sec | msec | usec | nsec =>
    all_goals
      obtain ⟨dp, hdp⟩ := dayCount_of_rawIndex (by decide) ha
      obtain ⟨dq, hdq⟩ := dayCount_of_rawIndex (by decide) hb
      rw [rawIndex_fine rfl hdp, Word.within_eq_ok] at ha
      rw [rawIndex_fine rfl hdq, Word.within_eq_ok] at hb
      obtain ⟨-, rfl⟩ := ha
      obtain ⟨-, rfl⟩ := hb
      have := dayCount_le_of_stamp_le hp hq h hdp hdq
      simp only [ClockTime.seconds, nanosPerSecond] 
      omega

/-- **The first instants of raw indices follow the order of the indices.** -/
theorem stamp_lt_of_partsOfRaw {n n' : Nat} {r : Resolution} {p p' : TimeParts}
    (hlt : n < n') (hmax : n' ≤ Word.max) (h : partsOfRaw n r = .ok p)
    (h' : partsOfRaw n' r = .ok p') : p.stamp < p'.stamp := by
  obtain ⟨q, hq, hnorm, -, hraw⟩ := partsOfRaw_spec n r
  obtain ⟨q', hq', hnorm', -, hraw'⟩ := partsOfRaw_spec n' r
  rw [h] at hq
  rw [h'] at hq'
  cases hq
  cases hq'
  refine Int.not_le.1 fun hge => ?_
  have := rawIndex_le_of_stamp_le hnorm' hnorm hge (hraw' hmax) (hraw (by omega))
  omega

end Chronology
