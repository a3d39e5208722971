import Chronology.Domain.Normalize
import Chronology.Calendar.Resolution
import Chronology.Proofs.Calendar.DayCount

/-!
# Normal times

Before a time is packed it is checked and brought to a normal form by `TimeParts.normalize`: a
date of the calendar, a clock time below `24:00` without leap second, a fraction below one second,
and no offset. `TimeParts.Normal` names that form. A normal time is its own normal form, and
whatever `normalize` returns is normal, whether it moved a leap second, a `24:00` or an offset.

A domain counts times at a resolution, and the times it hands out start their unit: the fields
finer than the resolution are at the start of their period. `TimeParts.truncate` cuts a time down
to a resolution in that way.

## Main definitions

* `TimeParts.Normal`: the normal form of a time.
* `TimeParts.truncate`: the time at the start of its unit of a resolution.

## Main results

* `TimeParts.normalize_eq_ok`, `TimeParts.applyOffset_eq_ok`: what a successful normalisation,
  and a successful removal of an offset, went through.
* `TimeParts.normalize_of_normal`: `normalize` leaves a normal time as it is.
* `TimeParts.normal_of_normalize`: what `normalize` returns is normal.
-/

namespace Chronology

/-! ### Times of day -/

namespace ClockTime

/-- The time of day of a second of the day. -/
theorem ofSeconds_eq_ok {s : Int} (h0 : 0 ≤ s) (h1 : s < 86400) :
    ofSeconds s = .ok ⟨s.toNat / 3600, s.toNat % 3600 / 60, s.toNat % 60⟩ := by
  unfold ofSeconds
  rw [if_neg (by simp only [secondsPerDay]; omega)]

/-- A time of day read from seconds has an hour, a minute and a second in range, and names those
seconds. -/
theorem ofSeconds_spec {s : Int} {t : ClockTime} (h : ofSeconds s = .ok t) :
    t.hour ≤ 23 ∧ t.minute ≤ 59 ∧ t.second ≤ 59 ∧ (t.seconds : Int) = s := by
  unfold ofSeconds secondsPerDay at h
  split at h
  · cases h
  · cases h
    simp only [seconds]
    omega

/-- The seconds of a time of day in range give back the time of day. -/
theorem ofSeconds_seconds {h m s : Nat} (hh : h ≤ 23) (hm : m ≤ 59) (hs : s ≤ 59) :
    ofSeconds (seconds ⟨h, m, s⟩ : Nat) = .ok ⟨h, m, s⟩ := by
  rw [ofSeconds_eq_ok (by omega) (by simp only [seconds]; omega)]
  simp only [seconds, Int.toNat_natCast, Except.ok.injEq, mk.injEq]
  omega

end ClockTime

/-- A field check passes exactly when the value is within its limit. -/
@[simp] theorem checkField_eq_ok {field : TimeField} {value limit : Nat} :
    checkField field value limit = .ok () ↔ value ≤ limit := by
  unfold checkField
  split <;> simp_all

namespace TimeParts

/-! ### The normal form -/

/-- A time in normal form: a date of the calendar, a clock time below `24:00` without leap second,
a fraction below one second, and no offset. -/
structure Normal (p : TimeParts) : Prop where
  date : Gregorian.checkDate p.year p.month p.day = .ok ()
  hour_le : p.hour ≤ 23
  minute_le : p.minute ≤ 59
  second_le : p.second ≤ 59
  nanos_lt : p.nanos < nanosPerSecond
  offset_eq : p.offset = none

/-- A field above its limit is refused, naming the field and the value. -/
theorem checkField_eq_error {field : TimeField} {value limit : Nat} {e : TimeError} :
    checkField field value limit = .error e ↔ limit < value ∧ e = .invalidField field value := by
  unfold checkField
  by_cases hv : value ≤ limit
  · simp only [hv, if_true, reduceCtorEq, false_iff, not_and]
    intro h
    omega
  · simp only [hv, if_false, Except.error.injEq]
    constructor
    · rintro rfl
      exact ⟨by omega, rfl⟩
    · rintro ⟨-, rfl⟩
      rfl

/-- A check of a field followed by more steps fails with the refusal of the field when it is above
its limit, and otherwise as the steps after it fail. -/
theorem checkField_bind_eq_error {α : Type} {field : TimeField} {value limit : Nat}
    {k : Unit → Except TimeError α} {e : TimeError} :
    (checkField field value limit >>= k) = .error e ↔
      (limit < value ∧ e = .invalidField field value) ∨ (value ≤ limit ∧ k () = .error e) := by
  unfold checkField
  by_cases hv : value ≤ limit
  · simp [hv, Nat.not_lt.2 hv]
  · simp [hv, Nat.lt_of_not_le hv, eq_comm]

theorem checkField_of_le {field : TimeField} {value limit : Nat} (h : value ≤ limit) :
    checkField field value limit = .ok () :=
  checkField_eq_ok.2 h

/-- **What a successful normalisation went through**: the checks of the fields, the leap second,
`24:00`, and then the offset, dropped when it is zero and removed otherwise. -/
theorem normalize_eq_ok {p q : TimeParts} :
    p.normalize = .ok q ↔
      Gregorian.checkDate p.year p.month p.day = .ok () ∧ p.hour ≤ 24 ∧ p.minute ≤ 59 ∧
        p.second ≤ 60 ∧ p.nanos ≤ nanosPerSecond - 1 ∧
        ∃ p₁ p₂, p.settleLeapSecond = .ok p₁ ∧ p₁.settleMidnight = .ok p₂ ∧
          ((p₂.offset = none ∧ q = p₂) ∨
            (∃ o, p₂.offset = some o ∧ o.isZero = true ∧ q = { p₂ with offset := none }) ∨
            ∃ o, p₂.offset = some o ∧ o.isZero = false ∧ p₂.applyOffset o = .ok q) := by
  constructor
  · intro h
    unfold normalize at h
    obtain ⟨_, hdate, h⟩ := bind_eq_ok.1 h
    obtain ⟨_, hh, h⟩ := bind_eq_ok.1 h
    obtain ⟨_, hm, h⟩ := bind_eq_ok.1 h
    obtain ⟨_, hs, h⟩ := bind_eq_ok.1 h
    obtain ⟨_, hn, h⟩ := bind_eq_ok.1 h
    obtain ⟨p₁, h₁, h⟩ := bind_eq_ok.1 h
    obtain ⟨p₂, h₂, h⟩ := bind_eq_ok.1 h
    refine ⟨liftCal_eq_ok.1 hdate, checkField_eq_ok.1 hh, checkField_eq_ok.1 hm,
      checkField_eq_ok.1 hs, checkField_eq_ok.1 hn, p₁, p₂, h₁, h₂, ?_⟩
    split at h
    · rename_i o ho
      split at h
      · exact .inr (.inl ⟨o, ho, ‹_›, (Except.ok.inj h).symm⟩)
      · exact .inr (.inr ⟨o, ho, by simpa using ‹¬o.isZero = true›, h⟩)
    · exact .inl ⟨‹_›, (Except.ok.inj h).symm⟩
  · rintro ⟨hdate, hh, hm, hs, hn, p₁, p₂, h₁, h₂, hoff⟩
    simp only [normalize, liftCal, hdate, Except.mapError, checkField_of_le hh, checkField_of_le hm,
      checkField_of_le hs, checkField_of_le hn, except_ok_bind, h₁, h₂]
    rcases hoff with ⟨ho, rfl⟩ | ⟨o, ho, hz, rfl⟩ | ⟨o, ho, hz, h⟩
    · simp [ho]
    · simp [ho, hz]
    · simp [ho, hz, h]

/-- **A normal time is its own normal form.** -/
theorem normalize_of_normal {p : TimeParts} (hp : p.Normal) : p.normalize = .ok p := by
  obtain ⟨hdate, hh, hm, hs, hn, ho⟩ := hp
  simp only [nanosPerSecond] at hn
  have hleap : settleLeapSecond p = .ok p := by simp [settleLeapSecond, show p.second ≠ 60 by omega]
  have hmid : settleMidnight p = .ok p := by simp [settleMidnight, show p.hour ≠ 24 by omega]
  exact normalize_eq_ok.2 ⟨hdate, by omega, hm, by omega, by simp only [nanosPerSecond]; omega,
    p, p, hleap, hmid, .inl ⟨ho, rfl⟩⟩

/-! ### What `normalize` returns -/

/-- A leap second becomes the second before it; nothing else changes. -/
theorem settleLeapSecond_eq_ok {p q : TimeParts} (h : p.settleLeapSecond = .ok q) :
    q = if p.second = 60 then { p with second := 59 } else p := by
  unfold settleLeapSecond at h
  split at h
  · split at h
    · cases h
      simp [*]
    · cases h
  · cases h
    simp [*]

/-- **What reading `24:00` went through**: a time at another hour is kept; at hour 24 the finer
fields are zero, the date has a day count, the next count fits a word, and the result is midnight
of the date of that count. -/
theorem settleMidnight_eq_ok {p q : TimeParts} :
    p.settleMidnight = .ok q ↔
      (p.hour ≠ 24 ∧ q = p) ∨
        (p.hour = 24 ∧ p.minute = 0 ∧ p.second = 0 ∧ p.nanos = 0 ∧
          ∃ days d, Gregorian.dayCount p.year p.month p.day = .ok days ∧ Word.Fits (days + 1) ∧
            Gregorian.dateOfDayCount (days + 1) = .ok d ∧
            q = { p with year := d.year, month := d.month, day := d.day, hour := 0 }) := by
  constructor
  · intro h
    unfold settleMidnight at h
    by_cases h24 : p.hour = 24
    · simp only [h24, ne_eq, not_true_eq_false, if_false, except_pure_eq] at h
      split at h
      · cases h
      · rename_i hzero
        simp only [not_or, not_not] at hzero
        obtain ⟨days, hdays, h⟩ := bind_eq_ok.1 h
        obtain ⟨next, hnext, h⟩ := bind_eq_ok.1 h
        obtain ⟨d, hd, hq⟩ := bind_eq_ok.1 h
        obtain ⟨hfit, rfl⟩ := Word.within_eq_ok.1 hnext
        exact .inr ⟨h24, hzero.1, hzero.2.1, hzero.2.2, days, d, liftCal_eq_ok.1 hdays, hfit,
          liftCal_eq_ok.1 hd, (Except.ok.inj hq).symm⟩
    · simp only [h24, ne_eq, not_false_eq_true, if_true, except_pure_eq, Except.ok.injEq] at h
      exact .inl ⟨h24, h.symm⟩
  · rintro (⟨h24, rfl⟩ | ⟨h24, hm, hs, hn, days, d, hdays, hfit, hd, rfl⟩)
    · simp [settleMidnight, h24]
    · simp [settleMidnight, h24, hm, hs, hn, liftCal, Except.mapError, hdays,
        Word.within_of_fits _ hfit, hd]

/-- Moving `24:00` to the next day's midnight gives a date of the calendar and an hour below 24,
and keeps the finer fields and the offset. -/
theorem settleMidnight_spec {p q : TimeParts} (h : p.settleMidnight = .ok q)
    (hdate : Gregorian.checkDate p.year p.month p.day = .ok ()) (hh : p.hour ≤ 24) :
    Gregorian.checkDate q.year q.month q.day = .ok () ∧ q.hour ≤ 23 ∧ q.minute = p.minute ∧
      q.second = p.second ∧ q.nanos = p.nanos ∧ q.offset = p.offset := by
  rcases settleMidnight_eq_ok.1 h with ⟨h24, rfl⟩ | ⟨-, -, -, -, days, d, -, -, hd, rfl⟩
  · exact ⟨hdate, by omega, rfl, rfl, rfl, rfl⟩
  · obtain ⟨y, m, dd, hd', hvalid, -⟩ :=
      Gregorian.dateOfDayCount_eq_ok (Gregorian.dateOfDayCount_nonneg hd)
    rw [hd] at hd'
    cases hd'
    exact ⟨hvalid, Nat.zero_le 23, rfl, rfl, rfl, rfl⟩

/-- **What removing an offset went through**: the checks of the offset's fields, the day count of
the date, and the local nanoseconds of the day moved by the offset (`utc`), whose whole days carry
that count to one that fits a word and is not negative. The result is the date of the carried count
with the clock time and fraction of what is left of `utc` in its day. -/
theorem applyOffset_eq_ok {p q : TimeParts} {o : UtcOffset} :
    p.applyOffset o = .ok q ↔
      (o.hours ≤ 23 ∧ o.minutes ≤ 59 ∧ o.seconds ≤ 59 ∧ o.nanos ≤ nanosPerSecond - 1) ∧
        ∃ utc start d t,
          utc = (if o.negative then nanosOfDay p.hour p.minute p.second p.nanos +
              nanosOfDay o.hours o.minutes o.seconds o.nanos
            else nanosOfDay p.hour p.minute p.second p.nanos -
              nanosOfDay o.hours o.minutes o.seconds o.nanos) ∧
          Gregorian.dayCount p.year p.month p.day = .ok start ∧
          Word.Fits (start + utc / (nanosPerDay : Int)) ∧ 0 ≤ start + utc / (nanosPerDay : Int) ∧
          Gregorian.dateOfDayCount (start + utc / (nanosPerDay : Int)) = .ok d ∧
          ClockTime.ofSeconds (utc % (nanosPerDay : Int) / (nanosPerSecond : Int)) = .ok t ∧
          q = { year := d.year, month := d.month, day := d.day, hour := t.hour,
                minute := t.minute, second := t.second,
                nanos := (utc % (nanosPerDay : Int) % (nanosPerSecond : Int)).toNat } := by
  constructor
  · intro h
    unfold applyOffset at h
    obtain ⟨_, hh, h⟩ := bind_eq_ok.1 h
    obtain ⟨_, hm, h⟩ := bind_eq_ok.1 h
    obtain ⟨_, hs, h⟩ := bind_eq_ok.1 h
    obtain ⟨_, hn, h⟩ := bind_eq_ok.1 h
    obtain ⟨start, hstart, h⟩ := bind_eq_ok.1 h
    obtain ⟨days, hdays, h⟩ := bind_eq_ok.1 h
    dsimp only at h
    split at h
    · simp at h
    · obtain ⟨d, hd, h⟩ := bind_eq_ok.1 h
      obtain ⟨t, ht, hq⟩ := bind_eq_ok.1 h
      obtain ⟨hfit, rfl⟩ := Word.within_eq_ok.1 hdays
      exact ⟨⟨checkField_eq_ok.1 hh, checkField_eq_ok.1 hm, checkField_eq_ok.1 hs,
        checkField_eq_ok.1 hn⟩, _, start, d, t, rfl, liftCal_eq_ok.1 hstart, hfit,
        Int.not_lt.1 ‹_›, liftCal_eq_ok.1 hd, liftCal_eq_ok.1 ht, (Except.ok.inj hq).symm⟩
  · rintro ⟨⟨hh, hm, hs, hn⟩, _, start, d, t, rfl, hstart, hfit, h0, hd, ht, rfl⟩
    simp only [applyOffset, checkField_of_le hh, checkField_of_le hm, checkField_of_le hs,
      checkField_of_le hn, except_ok_bind, liftCal, Except.mapError, hstart,
      Word.within_of_fits _ hfit, if_neg (Int.not_lt.2 h0), hd, ht, except_pure_eq]

/-- Removing an offset gives a normal time: the date of the shifted day count, and the clock time
and fraction of the shifted nanoseconds of the day. -/
theorem applyOffset_normal {p q : TimeParts} {o : UtcOffset} (h : p.applyOffset o = .ok q) :
    q.Normal := by
  obtain ⟨-, utc, start, d, t, -, -, -, -, hd, ht, rfl⟩ := applyOffset_eq_ok.1 h
  obtain ⟨y, m, dd, hd', hvalid, -⟩ :=
    Gregorian.dateOfDayCount_eq_ok (Gregorian.dateOfDayCount_nonneg hd)
  rw [hd] at hd'
  cases hd'
  obtain ⟨hh, hm, hs, -⟩ := ClockTime.ofSeconds_spec ht
  refine ⟨hvalid, hh, hm, hs, ?_, rfl⟩
  simp only [nanosPerSecond, nanosPerDay]
  omega

/-- **What `normalize` returns is normal.** The leap second is settled first, then `24:00`, then the
offset. -/
theorem normal_of_normalize {q p : TimeParts} (h : q.normalize = .ok p) : p.Normal := by
  obtain ⟨hdate, hh, hm, hs, hn, p₁, p₂, h₁, h₂, hoff⟩ := normalize_eq_ok.1 h
  have hp₁ : Gregorian.checkDate p₁.year p₁.month p₁.day = .ok () ∧ p₁.hour = q.hour ∧
      p₁.minute = q.minute ∧ p₁.second ≤ 59 ∧ p₁.nanos = q.nanos := by
    rw [settleLeapSecond_eq_ok h₁]
    split
    · exact ⟨hdate, rfl, rfl, by simp, rfl⟩
    · exact ⟨hdate, rfl, rfl, by omega, rfl⟩
  obtain ⟨hdate₂, hh₂, hm₂, hs₂, hn₂, -⟩ := settleMidnight_spec h₂ hp₁.1 (by omega)
  simp only [nanosPerSecond] at hn
  rcases hoff with ⟨ho, rfl⟩ | ⟨o, -, -, rfl⟩ | ⟨o, -, -, h⟩
  · exact ⟨hdate₂, hh₂, by omega, by omega, by simp only [nanosPerSecond]; omega, ho⟩
  · exact ⟨hdate₂, hh₂, by dsimp only; omega, by dsimp only; omega,
      by dsimp only [nanosPerSecond]; omega, rfl⟩
  · exact applyOffset_normal h

/-! ### Years of the normal form -/

/-- Moving `24:00` to the next day keeps the year, or takes the year of a day count that fits a
word. -/
theorem settleMidnight_year {p q : TimeParts} (h : p.settleMidnight = .ok q) :
    q.year = p.year ∨ q.year ≤ Word.max := by
  rcases settleMidnight_eq_ok.1 h with ⟨-, rfl⟩ | ⟨-, -, -, -, days, d, -, hfit, hd, rfl⟩
  · exact .inl rfl
  · exact .inr (Int.le_trans (Gregorian.year_le_of_dateOfDayCount hd) hfit.2)

/-- Removing an offset gives the year of a day count that fits a word. -/
theorem applyOffset_year {p q : TimeParts} {o : UtcOffset} (h : p.applyOffset o = .ok q) :
    q.year ≤ Word.max := by
  obtain ⟨-, utc, start, d, t, -, -, hfit, -, hd, -, rfl⟩ := applyOffset_eq_ok.1 h
  exact Int.le_trans (Gregorian.year_le_of_dateOfDayCount hd) hfit.2

/-- The normal form of a time whose year fits a word has a year that fits a word. Settling the leap
second keeps the year, and `24:00` keeps it or moves it within the words. -/
theorem normalize_year_le {q p : TimeParts} (h : q.normalize = .ok p) (hq : q.year ≤ Word.max) :
    p.year ≤ Word.max := by
  obtain ⟨-, -, -, -, -, p₁, p₂, h₁, h₂, hoff⟩ := normalize_eq_ok.1 h
  have hp₁ : p₁.year = q.year := by
    rw [settleLeapSecond_eq_ok h₁]
    split <;> rfl
  have hp₂ : p₂.year ≤ Word.max := by
    rcases settleMidnight_year h₂ with h | h
    · omega
    · exact h
  rcases hoff with ⟨-, rfl⟩ | ⟨o, -, -, rfl⟩ | ⟨o, -, -, h⟩
  · exact hp₂
  · exact hp₂
  · exact applyOffset_year h

/-! ### Cutting a time down to a resolution -/

/-- The time at the start of its unit of resolution `r`: the fields finer than `r` are reset to the
start of their period (month 1, day 1, zero clock fields), and the nanoseconds are cut down to
whole milliseconds or microseconds, or to none at a second and coarser. -/
def truncate (p : TimeParts) : Resolution → TimeParts
  | .year => { p with month := 1, day := 1, hour := 0, minute := 0, second := 0, nanos := 0 }
  | .month => { p with day := 1, hour := 0, minute := 0, second := 0, nanos := 0 }
  | .day => { p with hour := 0, minute := 0, second := 0, nanos := 0 }
  | .hour => { p with minute := 0, second := 0, nanos := 0 }
  | .min => { p with second := 0, nanos := 0 }
  | .sec => { p with nanos := 0 }
  | .msec => { p with nanos := p.nanos / 1000000 * 1000000 }
  | .usec => { p with nanos := p.nanos / 1000 * 1000 }
  | .nsec => p

@[simp] theorem truncate_year (p : TimeParts) : (p.truncate r).year = p.year := by
  cases r <;> rfl

@[simp] theorem truncate_offset (p : TimeParts) : (p.truncate r).offset = p.offset := by
  cases r <;> rfl

/-- The first day of a month of the calendar, and the first day of its year, are dates. -/
theorem checkDate_first {y : Int} {m d : Nat} (h : Gregorian.checkDate y m d = .ok ()) :
    Gregorian.checkDate y m 1 = .ok () ∧ Gregorian.checkDate y 1 1 = .ok () := by
  obtain ⟨hy, hm1, hm2, hd1, hd2⟩ := Gregorian.checkDate_eq_ok.1 h
  refine ⟨Gregorian.checkDate_eq_ok.2 ⟨hy, hm1, hm2, Nat.le_refl 1, by omega⟩,
    Gregorian.checkDate_eq_ok.2 ⟨hy, Nat.le_refl 1, by omega, Nat.le_refl 1, ?_⟩⟩
  simp only [Gregorian.monthLength, Gregorian.daysBeforeMonth]
  cases Gregorian.isLeap y <;> decide

theorem checkDate_truncate {p : TimeParts}
    (hdate : Gregorian.checkDate p.year p.month p.day = .ok ()) (r : Resolution) :
    Gregorian.checkDate (p.truncate r).year (p.truncate r).month (p.truncate r).day = .ok () := by
  cases r with
  | year => exact (checkDate_first hdate).2
  | month => exact (checkDate_first hdate).1
  | _ => exact hdate

/-- Cutting a normal time down keeps it normal. -/
theorem Normal.truncate {p : TimeParts} (hp : p.Normal) (r : Resolution) :
    (p.truncate r).Normal := by
  obtain ⟨hdate, hh, hm, hs, hn, ho⟩ := hp
  simp only [nanosPerSecond] at hn
  refine ⟨checkDate_truncate hdate r, ?_, ?_, ?_, ?_, by simpa using ho⟩ <;>
    cases r <;> dsimp only [TimeParts.truncate, nanosPerSecond] <;> omega

end TimeParts

end Chronology
