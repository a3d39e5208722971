import Chronology.Domain.RawIndex
import Chronology.Proofs.Normal

/-!
# Raw indices and the times they count

`rawIndex` counts the steps of a resolution from the first instant of the calendar, and
`partsOfRaw` finds the time at which a step starts. This module proves that they are inverse to
each other: every count from zero has a normal time at the start of its step, whose count it is
when the count fits a word, and the time of a normal time's count is that time cut down to the
resolution.

## Main results

* `rawIndex_truncate`: a raw index reads only the fields down to its resolution.
* `partsOfRaw_spec`: the time of a count from zero, and its count.
* `partsOfRaw_rawIndex`: the time of a normal time's count is the time cut down.
-/

namespace Chronology

open TimeParts

/-! ### Resolutions of a second and finer -/

/-- A second and its finer resolutions split a second into units that divide a second's
nanoseconds. -/
theorem Resolution.unitsPerSecond_spec {r : Resolution} {u : Nat}
    (hr : r.unitsPerSecond = some u) :
    r.unitsOrOne = u ∧ 0 < u ∧ 0 < nanosPerSecond / u ∧ u * (nanosPerSecond / u) = nanosPerSecond := by
  cases r <;> simp only [Resolution.unitsPerSecond, reduceCtorEq, Option.some.injEq] at hr <;>
    subst hr <;> decide

/-- At a second or finer, cutting a time down keeps the whole steps of its fraction. -/
theorem truncate_fine {p : TimeParts} {r : Resolution} {u : Nat}
    (hr : r.unitsPerSecond = some u) (hn : p.nanos < nanosPerSecond) :
    p.truncate r = { p with nanos := p.nanos / (nanosPerSecond / u) * (nanosPerSecond / u) } := by
  obtain ⟨year, month, day, hour, minute, second, nanos, offset⟩ := p
  simp only [nanosPerSecond] at hn
  cases r <;> simp only [Resolution.unitsPerSecond, reduceCtorEq, Option.some.injEq] at hr <;>
    subst hr <;> simp only [truncate, nanosPerSecond, TimeParts.mk.injEq, and_true, true_and] <;>
    omega

/-- The raw index at a second or finer: the whole seconds of the time, counted in units, and the
units of its fraction. -/
theorem rawIndex_fine {p : TimeParts} {r : Resolution} {u : Nat}
    (hr : r.unitsPerSecond = some u) {days : Int}
    (h : Gregorian.dayCount p.year p.month p.day = .ok days) :
    rawIndex p r = Word.within (.overflow .calendarIndex)
      ((days * 86400 + (ClockTime.seconds ⟨p.hour, p.minute, p.second⟩ : Nat)) * u +
        (p.nanos / (nanosPerSecond / u) : Nat)) := by
  obtain ⟨hu, -⟩ := Resolution.unitsPerSecond_spec hr
  cases r <;> simp only [Resolution.unitsPerSecond, reduceCtorEq] at hr <;>
    simp only [rawIndex, liftCal, h, Except.mapError, except_ok_bind, hu]

/-! ### Day counts -/

/-- The first instant of the date of a day count, with the count when it fits a word. -/
theorem partsOfDayCount_eq (n : Nat) :
    ∃ y m d, partsOfDayCount n = .ok { year := y, month := m, day := d } ∧
      Gregorian.checkDate y m d = .ok () ∧
      (n ≤ Word.max → Gregorian.dayCount y m d = .ok n) := by
  obtain ⟨y, m, d, hdate, hvalid, -⟩ := Gregorian.dateOfDayCount_eq_ok (Int.natCast_nonneg n)
  refine ⟨y, m, d, ?_, hvalid, fun hfit => ?_⟩
  · simp [partsOfDayCount, liftCal, hdate, Except.mapError]
  · exact Gregorian.dayCount_dateOfDayCount hdate ⟨by simp only [Word.min]; omega, hfit⟩

/-- The date of a date's day count is that date. -/
theorem partsOfDayCount_dayCount {y : Int} {m d : Nat} {n : Int}
    (h : Gregorian.dayCount y m d = .ok n) :
    partsOfDayCount n.toNat = .ok { year := y, month := m, day := d } := by
  have hn : (n.toNat : Int) = n := Int.toNat_of_nonneg (Gregorian.dayCount_nonneg h)
  simp [partsOfDayCount, liftCal, hn, Gregorian.dateOfDayCount_dayCount h, Except.mapError]

/-! ### Counts finer than a second -/

/-- A count of steps splits into days, seconds of the day and steps of the second, which make it
up again. -/
theorem subsecond_count (n u step : Nat) (hstep : 0 < step) :
    (n / u / 86400 * 86400 + (n / u % 86400 / 3600 * 3600 + n / u % 86400 % 3600 / 60 * 60 +
      n / u % 86400 % 60)) * u + n % u * step / step = n := by
  have hinner : n / u / 86400 * 86400 + (n / u % 86400 / 3600 * 3600 +
      n / u % 86400 % 3600 / 60 * 60 + n / u % 86400 % 60) = n / u := by omega
  rw [hinner, Nat.mul_div_cancel _ hstep]
  exact Nat.div_add_mod' n u

/-- The time of a count of steps finer than a second: the date of its day, the clock time of its
second, and the fraction of its step. -/
theorem partsOfSubsecond_eq (n units : Nat) :
    ∃ y m d, partsOfSubsecond n units =
        .ok { year := y, month := m, day := d, hour := n / units % 86400 / 3600,
              minute := n / units % 86400 % 3600 / 60, second := n / units % 86400 % 60,
              nanos := n % units * (nanosPerSecond / units) } ∧
      Gregorian.checkDate y m d = .ok () ∧
      (n ≤ Word.max → Gregorian.dayCount y m d = .ok (n / units / 86400 : Nat)) := by
  obtain ⟨y, m, d, hq, hdate, hcount⟩ := partsOfDayCount_eq (n / units / 86400)
  have hsec : ClockTime.ofSeconds ((n / units % 86400 : Nat) : Int) =
      .ok ⟨n / units % 86400 / 3600, n / units % 86400 % 3600 / 60, n / units % 86400 % 60⟩ := by
    rw [ClockTime.ofSeconds_eq_ok (by omega) (by omega), Int.toNat_natCast]
  refine ⟨y, m, d, ?_, hdate, fun hfit => hcount ?_⟩
  · unfold partsOfSubsecond
    simp only [hq, except_ok_bind, liftCal, hsec, Except.mapError, except_pure_eq]
  · have hle : n / units / 86400 ≤ n :=
      Nat.le_trans (Nat.div_le_self _ _) (Nat.div_le_self _ _)
    omega

/-- At a second or finer, the time of a count is read through the units of a second. -/
theorem partsOfRaw_fine (n : Nat) {r : Resolution} {u : Nat} (hr : r.unitsPerSecond = some u) :
    partsOfRaw n r = partsOfSubsecond n u := by
  obtain ⟨hunits, -⟩ := Resolution.unitsPerSecond_spec hr
  subst hunits
  cases r <;> simp only [Resolution.unitsPerSecond, reduceCtorEq] at hr <;> rfl

/-- A count of steps finer than a second, from zero, is the count of a normal time at the start of
its step. The time is named, so that its fields are read off and not unified against the count. -/
theorem partsOfRaw_fine_spec (n : Nat) (r : Resolution) {u : Nat}
    (hr : r.unitsPerSecond = some u) :
    ∃ p, partsOfRaw n r = .ok p ∧ p.Normal ∧ p.truncate r = p ∧
      (n ≤ Word.max → rawIndex p r = .ok n) := by
  obtain ⟨hunits, hu, hstep', hstep⟩ := Resolution.unitsPerSecond_spec hr
  have hfrac : n % u * (nanosPerSecond / u) < nanosPerSecond :=
    Nat.lt_of_lt_of_le (Nat.mul_lt_mul_of_pos_right (Nat.mod_lt _ hu) hstep') (Nat.le_of_eq hstep)
  obtain ⟨y, m, d, hq, hdate, hcount⟩ := partsOfSubsecond_eq n u
  refine ⟨_, (partsOfRaw_fine n hr).trans hq,
    ⟨hdate, by dsimp only; omega, by dsimp only; omega, by dsimp only; omega, hfrac, rfl⟩,
    ?_, fun h => ?_⟩
  · rw [truncate_fine hr hfrac, Nat.mul_div_cancel _ hstep']
  · rw [rawIndex_fine (p := { year := y, month := m, day := d,
                              hour := n / u % 86400 / 3600, minute := n / u % 86400 % 3600 / 60,
                              second := n / u % 86400 % 60, nanos := n % u * (nanosPerSecond / u) })
      hr (hcount h), Word.within_eq_ok]
    have hint := congrArg (fun x : Nat => (x : Int)) (subsecond_count n u _ hstep')
    simp only [Int.natCast_add, Int.natCast_mul] at hint
    exact ⟨hint ▸ ⟨by simp only [Word.min]; omega, h⟩, hint⟩

/-- At a second or finer, the time of a normal time's count is the time cut down to the resolution.
The count is whole seconds in units plus the steps of the fraction, fewer than a second's. -/
theorem partsOfRaw_rawIndex_fine {p : TimeParts} (hp : p.Normal) (r : Resolution) {u : Nat}
    (hr : r.unitsPerSecond = some u) {n : Int} (h : rawIndex p r = .ok n) :
    partsOfRaw n.toNat r = .ok (p.truncate r) := by
  obtain ⟨hunits, hu, hstep', hstep⟩ := Resolution.unitsPerSecond_spec hr
  obtain ⟨hdate, hh, hm, hs, hn, ho⟩ := hp
  obtain ⟨days, hdays⟩ : ∃ days, Gregorian.dayCount p.year p.month p.day = .ok days := by
    cases hdc : Gregorian.dayCount p.year p.month p.day with
    | ok days => exact ⟨days, rfl⟩
    | error e =>
      cases r <;> simp only [Resolution.unitsPerSecond, reduceCtorEq] at hr <;>
        simp [rawIndex, liftCal, hdc, Except.mapError] at h
  rw [rawIndex_fine hr hdays, Word.within_eq_ok] at h
  obtain ⟨hfit, rfl⟩ := h
  obtain ⟨D, rfl⟩ := Int.eq_ofNat_of_zero_le (Gregorian.dayCount_nonneg hdays)
  have hfu : p.nanos / (nanosPerSecond / u) < u :=
    Nat.div_lt_of_lt_mul (by rw [Nat.mul_comm, hstep]; exact hn)
  have hsec : ClockTime.seconds ⟨p.hour, p.minute, p.second⟩ < 86400 := by
    simp only [ClockTime.seconds]; omega
  have hcast : (((D * 86400 + ClockTime.seconds ⟨p.hour, p.minute, p.second⟩) * u +
      p.nanos / (nanosPerSecond / u) : Nat) : Int) =
      ((D : Int) * 86400 + (ClockTime.seconds ⟨p.hour, p.minute, p.second⟩ : Nat)) * u +
        (p.nanos / (nanosPerSecond / u) : Nat) := by
    simp only [Int.natCast_add, Int.natCast_mul]
    rfl
  rw [← hcast] at hfit ⊢
  rw [Int.toNat_natCast, partsOfRaw_fine _ hr, truncate_fine hr hn]
  obtain ⟨y, m, d, hq, -, hcount⟩ := partsOfSubsecond_eq
    ((D * 86400 + ClockTime.seconds ⟨p.hour, p.minute, p.second⟩) * u +
      p.nanos / (nanosPerSecond / u)) u
  have hdiv : ((D * 86400 + ClockTime.seconds ⟨p.hour, p.minute, p.second⟩) * u +
      p.nanos / (nanosPerSecond / u)) / u = D * 86400 + ClockTime.seconds ⟨p.hour, p.minute, p.second⟩ := by
    rw [Nat.add_comm, Nat.add_mul_div_right _ _ hu, Nat.div_eq_of_lt hfu, Nat.zero_add]
  have hmod : ((D * 86400 + ClockTime.seconds ⟨p.hour, p.minute, p.second⟩) * u +
      p.nanos / (nanosPerSecond / u)) % u = p.nanos / (nanosPerSecond / u) := by
    rw [Nat.add_comm, Nat.add_mul_mod_self_right, Nat.mod_eq_of_lt hfu]
  rw [hdiv, hmod] at hq
  rw [hdiv] at hcount
  have hday : (D * 86400 + ClockTime.seconds ⟨p.hour, p.minute, p.second⟩) / 86400 = D := by
    omega
  rw [hday] at hcount
  obtain ⟨rfl, rfl, rfl⟩ := Gregorian.dayCount_inj (hcount hfit.2) hdays
  rw [hq]
  simp only [ClockTime.seconds, Except.ok.injEq, TimeParts.mk.injEq, ho, true_and, and_true]
    at hsec ⊢
  omega

/-- At a second or finer, a raw index reads the whole steps of the fraction. -/
theorem rawIndex_truncate_fine (p : TimeParts) (r : Resolution) {u : Nat}
    (hr : r.unitsPerSecond = some u) (hn : p.nanos < nanosPerSecond) :
    rawIndex (p.truncate r) r = rawIndex p r := by
  obtain ⟨-, -, hstep', -⟩ := Resolution.unitsPerSecond_spec hr
  rw [truncate_fine hr hn]
  cases hdc : Gregorian.dayCount p.year p.month p.day with
  | ok days =>
    rw [rawIndex_fine hr hdc,
      rawIndex_fine (p := { p with nanos := p.nanos / (nanosPerSecond / u) * (nanosPerSecond / u) })
        hr hdc, Nat.mul_div_cancel _ hstep']
  | error e =>
    cases r <;> simp only [Resolution.unitsPerSecond, reduceCtorEq] at hr <;>
      simp [rawIndex, liftCal, hdc, Except.mapError]

/-! ### The two directions -/

/-- A raw index reads only the fields of the time down to its resolution. -/
theorem rawIndex_truncate (p : TimeParts) (r : Resolution) (hn : p.nanos < nanosPerSecond) :
    rawIndex (p.truncate r) r = rawIndex p r := by
  cases r with
  | year | month | day | hour | min => rfl
  | sec => exact rawIndex_truncate_fine p .sec rfl hn
  | msec => exact rawIndex_truncate_fine p .msec rfl hn
  | usec => exact rawIndex_truncate_fine p .usec rfl hn
  | nsec => exact rawIndex_truncate_fine p .nsec rfl hn

/-- **Every count from zero is the count of a normal time at the start of its step**: the time
`partsOfRaw` finds is normal, cut down to the resolution, and counted back to the same raw index
when the count fits a word. -/
theorem partsOfRaw_spec (n : Nat) (r : Resolution) :
    ∃ p, partsOfRaw n r = .ok p ∧ p.Normal ∧ p.truncate r = p ∧
      (n ≤ Word.max → rawIndex p r = .ok n) := by
  have hfits : n ≤ Word.max → Word.Fits n := fun h => ⟨by simp only [Word.min]; omega, h⟩
  cases r with
  | year =>
    refine ⟨TimeParts.ofYear n, rfl, ⟨?_, by simp [ofYear], by simp [ofYear], by simp [ofYear],
      by simp [ofYear, nanosPerSecond], rfl⟩, rfl, fun _ => rfl⟩
    exact Gregorian.checkDate_month_start (Int.natCast_nonneg n) (Nat.le_refl 1) (by simp [ofYear])
  | month =>
    refine ⟨{ year := (n / 12 : Nat), month := n % 12 + 1 }, rfl,
      ⟨Gregorian.checkDate_month_start (Int.natCast_nonneg _) (by dsimp only; omega)
        (by dsimp only; omega),
        by simp, by simp,
        by simp, by simp [nanosPerSecond], rfl⟩, rfl, fun h => ?_⟩
    have hcount : ((n / 12 : Nat) : Int) * 12 + ((n % 12 + 1 : Nat) - 1 : Int) = n := by omega
    simp only [rawIndex, hcount]
    exact Word.within_of_fits _ (hfits h)
  | day =>
    obtain ⟨y, m, d, hq, hdate, hcount⟩ := partsOfDayCount_eq n
    refine ⟨_, hq, ⟨hdate, by simp, by simp, by simp, by simp [nanosPerSecond], rfl⟩, rfl,
      fun h => ?_⟩
    simp only [rawIndex, liftCal, hcount h, Except.mapError]
  | hour =>
    obtain ⟨y, m, d, hq, hdate, hcount⟩ := partsOfDayCount_eq (n / 24)
    refine ⟨{ year := y, month := m, day := d, hour := n % 24 }, ?_,
      ⟨hdate, by dsimp only; omega, by simp, by simp, by simp [nanosPerSecond], rfl⟩, rfl,
      fun h => ?_⟩
    · unfold partsOfRaw
      rw [hq]
      rfl
    · have hcount' : ((n / 24 : Nat) : Int) * 24 + ((n % 24 : Nat) : Int) = n := by omega
      simp only [rawIndex, liftCal, hcount (by omega), Except.mapError, except_ok_bind, hcount']
      exact Word.within_of_fits _ (hfits h)
  | min =>
    obtain ⟨y, m, d, hq, hdate, hcount⟩ := partsOfDayCount_eq (n / 1440)
    refine ⟨{ year := y, month := m, day := d, hour := n % 1440 / 60, minute := n % 1440 % 60 },
      ?_, ⟨hdate, by dsimp only; omega, by dsimp only; omega, by simp, by simp [nanosPerSecond],
        rfl⟩, rfl, fun h => ?_⟩
    · unfold partsOfRaw
      rw [hq]
      rfl
    · have hcount' : ((n / 1440 : Nat) : Int) * 1440 +
          ((n % 1440 / 60 * 60 + n % 1440 % 60 : Nat) : Int) = n := by omega
      simp only [rawIndex, liftCal, hcount (by omega), Except.mapError, except_ok_bind, hcount']
      exact Word.within_of_fits _ (hfits h)
  | sec => exact partsOfRaw_fine_spec n .sec rfl
  | msec => exact partsOfRaw_fine_spec n .msec rfl
  | usec => exact partsOfRaw_fine_spec n .usec rfl
  | nsec => exact partsOfRaw_fine_spec n .nsec rfl

/-- A raw index at a day or finer comes with the day count of the time's date. -/
theorem dayCount_of_rawIndex {p : TimeParts} {r : Resolution} {n : Int}
    (hr : Resolution.day.level ≤ r.level) (h : rawIndex p r = .ok n) :
    ∃ days, Gregorian.dayCount p.year p.month p.day = .ok days := by
  cases hdc : Gregorian.dayCount p.year p.month p.day with
  | ok days => exact ⟨days, rfl⟩
  | error e =>
    cases r <;> simp [Resolution.level] at hr <;>
      simp [rawIndex, liftCal, hdc, Except.mapError] at h

/-- A raw index of a normal time is a count from zero, and it fits a word when the year does. Every
count but the year's is checked against the word. -/
theorem rawIndex_bounds {p : TimeParts} (hp : p.Normal) {r : Resolution} {n : Int}
    (h : rawIndex p r = .ok n) : 0 ≤ n ∧ (p.year ≤ Word.max → n ≤ Word.max) := by
  obtain ⟨hy, hm1, -, -, -⟩ := Gregorian.checkDate_eq_ok.1 hp.date
  have hchecked : ∀ {x : Int}, 0 ≤ x → Word.within (TimeError.overflow .calendarIndex) x = .ok n →
      0 ≤ n ∧ (p.year ≤ Word.max → n ≤ Word.max) := fun h0 hx => by
    obtain ⟨hfit, rfl⟩ := Word.within_eq_ok.1 hx
    exact ⟨h0, fun _ => hfit.2⟩
  cases r with
  | year =>
    simp only [rawIndex, except_pure_eq, Except.ok.injEq] at h
    subst h
    exact ⟨hy, id⟩
  | month =>
    simp only [rawIndex] at h
    exact hchecked (by omega) h
  | day =>
    simp only [rawIndex, liftCal, mapError_eq_ok] at h
    exact ⟨Gregorian.dayCount_nonneg h, fun _ => (Gregorian.dayCount_eq_ok.1 h).2.1.2⟩
  | hour | min =>
    simp only [rawIndex] at h
    obtain ⟨days, hdays, h⟩ := bind_eq_ok.1 h
    exact hchecked (by have := Gregorian.dayCount_nonneg (liftCal_eq_ok.1 hdays); omega) h
  | sec | msec | usec | nsec =>
    all_goals
      obtain ⟨days, hdays⟩ := dayCount_of_rawIndex (by decide) h
      rw [rawIndex_fine rfl hdays] at h
      have h0 := Gregorian.dayCount_nonneg hdays
      exact hchecked (Int.add_nonneg (Int.mul_nonneg (Int.add_nonneg
        (Int.mul_nonneg h0 (by decide)) (Int.natCast_nonneg _)) (Int.natCast_nonneg _))
        (Int.natCast_nonneg _)) h

/-- A raw index counts at least the years before the time. A day count is at least the days before
the year, which are at least the years. -/
theorem year_le_rawIndex {p : TimeParts} (hp : p.Normal) {r : Resolution} {n : Int}
    (h : rawIndex p r = .ok n) : p.year ≤ n := by
  obtain ⟨hy, hm1, -, hd1, -⟩ := Gregorian.checkDate_eq_ok.1 hp.date
  have hdays : ∀ {days : Int}, Gregorian.dayCount p.year p.month p.day = .ok days →
      p.year ≤ days := fun hd => by
    obtain ⟨-, -, rfl⟩ := Gregorian.dayCount_eq_ok.1 hd
    have := Gregorian.le_daysBeforeYear hy
    omega
  cases r with
  | year =>
    simp only [rawIndex, except_pure_eq, Except.ok.injEq] at h
    omega
  | month =>
    simp only [rawIndex, Word.within_eq_ok] at h
    omega
  | day =>
    simp only [rawIndex, liftCal_eq_ok] at h
    exact hdays h
  | hour | min =>
    all_goals
      simp only [rawIndex] at h
      obtain ⟨days, hd, h⟩ := bind_eq_ok.1 h
      obtain ⟨-, rfl⟩ := Word.within_eq_ok.1 h
      have := hdays (liftCal_eq_ok.1 hd)
      omega
  | sec | msec | usec | nsec =>
    all_goals
      obtain ⟨days, hd⟩ := dayCount_of_rawIndex (by decide) h
      rw [rawIndex_fine rfl hd, Word.within_eq_ok] at h
      obtain ⟨-, rfl⟩ := h
      have := hdays hd
      simp only [ClockTime.seconds, nanosPerSecond]
      omega

/-- **The time of a normal time's count is the time cut down to the resolution.** At a second or
finer the count is read through the units of a second. -/
theorem partsOfRaw_rawIndex {p : TimeParts} (hp : p.Normal) {r : Resolution} {n : Int}
    (h : rawIndex p r = .ok n) : partsOfRaw n.toNat r = .ok (p.truncate r) := by
  cases hu : r.unitsPerSecond with
  | some u => exact partsOfRaw_rawIndex_fine hp r hu h
  | none =>
    obtain ⟨year, month, day, hour, minute, second, nanos, offset⟩ := p
    obtain ⟨hdate, hh, hm, hs, hn, ho⟩ := hp
    dsimp only at hdate hh hm hs hn ho
    subst ho
    obtain ⟨hy, hm1, hm2, -, -⟩ := Gregorian.checkDate_eq_ok.1 hdate
    cases r with
    | year =>
      simp only [rawIndex, except_pure_eq, Except.ok.injEq] at h
      subst h
      unfold partsOfRaw
      rw [Int.toNat_of_nonneg hy]
      rfl
    | month =>
      simp only [rawIndex, Word.within_eq_ok] at h
      obtain ⟨-, rfl⟩ := h
      unfold partsOfRaw
      simp only [except_pure_eq, truncate, Except.ok.injEq, TimeParts.mk.injEq, and_true]
      omega
    | day =>
      simp only [rawIndex, liftCal, mapError_eq_ok] at h
      unfold partsOfRaw
      rw [partsOfDayCount_dayCount h]
      rfl
    | hour =>
      simp only [rawIndex] at h
      obtain ⟨days, hdays, h⟩ := bind_eq_ok.1 h
      obtain ⟨-, rfl⟩ := Word.within_eq_ok.1 h
      have hdays := liftCal_eq_ok.1 hdays
      have h0 := Gregorian.dayCount_nonneg hdays
      have hq : (days * 24 + (hour : Int)).toNat / 24 = days.toNat := by omega
      unfold partsOfRaw
      rw [hq, partsOfDayCount_dayCount hdays]
      simp only [except_ok_bind, except_pure_eq, truncate, Except.ok.injEq, TimeParts.mk.injEq,
        true_and, and_true]
      omega
    | min =>
      simp only [rawIndex] at h
      obtain ⟨days, hdays, h⟩ := bind_eq_ok.1 h
      obtain ⟨-, rfl⟩ := Word.within_eq_ok.1 h
      have hdays := liftCal_eq_ok.1 hdays
      have h0 := Gregorian.dayCount_nonneg hdays
      have hq : (days * 1440 + ((hour * 60 + minute : Nat) : Int)).toNat / 1440 = days.toNat := by
        omega
      unfold partsOfRaw
      rw [hq, partsOfDayCount_dayCount hdays]
      simp only [except_ok_bind, except_pure_eq, truncate, Except.ok.injEq, TimeParts.mk.injEq,
        true_and, and_true]
      omega
    | sec | msec | usec | nsec => cases hu

end Chronology
