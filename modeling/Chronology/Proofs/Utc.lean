import Chronology.Proofs.Normal

/-!
# The instant a time denotes

A time given field by field names an instant: the nanoseconds from the first instant of the
calendar to the start of its date, plus its clock time, less its offset from UTC. The count is
exact, so `24:00` is the next day's midnight, and a leap second, which the calendar does not count,
is read as the second before it. `TimeParts.normalize` finds the normal time at that instant.

It refuses a time whose fields fail their checks, and a time whose normalisation needs a day count
that does not fit a signed 64-bit word: the count of its date when the time is `24:00` or carries
an offset, the count of the next day for `24:00`, and the count of the UTC day for an offset, which
must not lie before the calendar either. The count of the date is taken even where the UTC day
would fit: a date just past the last countable day, moved back across midnight by its offset, is
refused. A failed check is an invalid argument, a count that does not fit an overflow, and a UTC
day before the calendar is refused as such; the counts of `24:00` are taken before the fields of
an offset are checked.

## Main definitions

* `TimeParts.dayNumber`, `TimeParts.instant`: the day count and the instant of a time read at face
  value, exact.
* `TimeParts.utcInstant`: the instant a time denotes, leap second and offset taken into account.
* `TimeParts.FieldsValid`: the checks of the fields.
* `TimeParts.CountsFit`: the day counts that normalising takes fit a word.

## Main results

* `TimeParts.normalize_spec`: a normal form passed the checks, took counts that fit, and is the
  normal time at the UTC instant.
* `TimeParts.normalize_of_valid`: a time that passes the checks and whose counts fit has a normal
  form.
* `TimeParts.normalize_error_cases`: which error a refused normalisation reports.
* `TimeParts.normalize_utc`: the three together, as what `normalize` returns, when it fails, and
  with which error.
-/

namespace Chronology

/-- Nanoseconds by which the offset puts the local time ahead of UTC. -/
def UtcOffset.signedNanos (o : UtcOffset) : Int :=
  if o.negative then -TimeParts.nanosOfDay o.hours o.minutes o.seconds o.nanos
  else TimeParts.nanosOfDay o.hours o.minutes o.seconds o.nanos

namespace TimeParts

open Gregorian

/-! ### Instants -/

/-- The day count of the date, exact: the days before its year, then its day of the year. -/
def dayNumber (p : TimeParts) : Int :=
  daysBeforeYear p.year + (daysBeforeMonth (isLeap p.year)).getD (p.month - 1) 0 + p.day - 1

/-- Nanoseconds from the first instant of the calendar to the time read at face value. -/
def instant (p : TimeParts) : Int :=
  p.dayNumber * nanosPerDay + nanosOfDay p.hour p.minute p.second p.nanos

/-- The time with a leap second read as the second before it. -/
def leapless (p : TimeParts) : TimeParts :=
  if p.second = 60 then { p with second := 59 } else p

/-- Nanoseconds by which the time's offset puts it ahead of UTC; 0 without offset. -/
def offsetNanos (p : TimeParts) : Int :=
  match p.offset with
  | some o => o.signedNanos
  | none => 0

/-- The UTC instant that the time denotes. -/
def utcInstant (p : TimeParts) : Int := p.leapless.instant - p.offsetNanos

/-- The time carries an offset other than zero. -/
def HasOffset (p : TimeParts) : Prop := ∃ o, p.offset = some o ∧ o.isZero = false

/-! ### Day counts -/

/-- A date of the calendar lies on or after its first day. -/
theorem dayNumber_nonneg {p : TimeParts} (hdate : checkDate p.year p.month p.day = .ok ()) :
    0 ≤ p.dayNumber := by
  obtain ⟨hy, -, -, hd, -⟩ := checkDate_eq_ok.1 hdate
  have h0 : 0 ≤ daysBeforeYear p.year := Int.le_trans hy (le_daysBeforeYear hy)
  simp only [dayNumber]
  omega

/-- The day count of a date is its day number, when that fits a word. -/
theorem dayCount_eq_ok_iff {p : TimeParts} {n : Int} :
    dayCount p.year p.month p.day = .ok n ↔
      checkDate p.year p.month p.day = .ok () ∧ p.dayNumber ≤ Word.max ∧ n = p.dayNumber := by
  rw [dayCount_eq_ok]
  constructor
  · rintro ⟨hdate, hfit, rfl⟩
    exact ⟨hdate, hfit.2, rfl⟩
  · rintro ⟨hdate, hmax, rfl⟩
    have h0 := dayNumber_nonneg hdate
    exact ⟨hdate, ⟨by simp only [Word.min]; omega, hmax⟩, rfl⟩

/-- The day count of a date of the calendar is its day number, refused when that does not fit. -/
theorem dayCount_eq_within {p : TimeParts} (h : checkDate p.year p.month p.day = .ok ()) :
    dayCount p.year p.month p.day = Word.within (.overflow .dayCount) p.dayNumber :=
  Gregorian.dayCount_eq_within h

/-- The day count of a date of the calendar is refused only as an overflow, above the word. -/
theorem dayCount_eq_error {p : TimeParts} {e : CalendarError}
    (hdate : checkDate p.year p.month p.day = .ok ())
    (h : dayCount p.year p.month p.day = .error e) :
    e = .overflow .dayCount ∧ Word.max < p.dayNumber := by
  rw [TimeParts.dayCount_eq_within hdate, Word.within_eq_error] at h
  have h0 := dayNumber_nonneg hdate
  refine ⟨h.2, Int.not_le.1 fun hmax => h.1 ⟨?_, hmax⟩⟩
  simp only [Word.min]
  omega

/-- The date of a day count from zero is a date of the calendar with that day number. -/
theorem dateOfDayCount_dayNumber {n : Int} {date : Date} (h : dateOfDayCount n = .ok date) :
    checkDate date.year date.month date.day = .ok () ∧
      dayNumber { year := date.year, month := date.month, day := date.day } = n := by
  obtain ⟨y, m, d, hdate, hvalid, heq⟩ := dateOfDayCount_eq_ok (dateOfDayCount_nonneg h)
  rw [hdate] at h
  cases h
  exact ⟨hvalid, heq.symm⟩

/-! ### Reading a leap second -/

@[simp] theorem leapless_year (p : TimeParts) : p.leapless.year = p.year := by
  unfold leapless; split <;> rfl

@[simp] theorem leapless_month (p : TimeParts) : p.leapless.month = p.month := by
  unfold leapless; split <;> rfl

@[simp] theorem leapless_day (p : TimeParts) : p.leapless.day = p.day := by
  unfold leapless; split <;> rfl

@[simp] theorem leapless_hour (p : TimeParts) : p.leapless.hour = p.hour := by
  unfold leapless; split <;> rfl

@[simp] theorem leapless_minute (p : TimeParts) : p.leapless.minute = p.minute := by
  unfold leapless; split <;> rfl

@[simp] theorem leapless_nanos (p : TimeParts) : p.leapless.nanos = p.nanos := by
  unfold leapless; split <;> rfl

@[simp] theorem leapless_offset (p : TimeParts) : p.leapless.offset = p.offset := by
  unfold leapless; split <;> rfl

theorem leapless_second (p : TimeParts) :
    p.leapless.second = if p.second = 60 then 59 else p.second := by
  unfold leapless; split <;> rfl

@[simp] theorem dayNumber_leapless (p : TimeParts) : p.leapless.dayNumber = p.dayNumber := by
  simp [dayNumber]

/-! ### The steps of normalising -/

/-- A leap second is read as the second before it, on the two days that have one. -/
theorem settleLeapSecond_eq_ok_iff {p q : TimeParts} :
    p.settleLeapSecond = .ok q ↔
      (p.second = 60 → (p.month = 6 ∧ p.day = 30) ∨ (p.month = 12 ∧ p.day = 31)) ∧
        q = p.leapless := by
  unfold settleLeapSecond leapless
  by_cases h60 : p.second = 60
  · by_cases hday : (p.month = 6 ∧ p.day = 30) ∨ (p.month = 12 ∧ p.day = 31)
    · simp [h60, hday, eq_comm]
    · simp [h60, hday]
  · simp [h60, eq_comm]

/-- A leap second on a day without one is refused as an invalid argument. -/
theorem settleLeapSecond_eq_error {p : TimeParts} {e : TimeError}
    (h : p.settleLeapSecond = .error e) :
    p.second = 60 ∧ ¬ ((p.month = 6 ∧ p.day = 30) ∨ (p.month = 12 ∧ p.day = 31)) ∧
      e.kind = .invalidArgument := by
  unfold settleLeapSecond at h
  split at h
  · rename_i h60
    split at h
    · cases h
    · rename_i hday
      cases h
      exact ⟨h60, hday, rfl⟩
  · cases h

/-- Reading `24:00` as the next day's midnight keeps the instant; it needs the day counts of the
date and of the next day to fit a word. -/
theorem settleMidnight_instant {p q : TimeParts} (h : p.settleMidnight = .ok q) :
    (p.hour = 24 → p.minute = 0 ∧ p.second = 0 ∧ p.nanos = 0 ∧ p.dayNumber + 1 ≤ Word.max ∧
      q.dayNumber = p.dayNumber + 1) ∧
    (p.hour ≠ 24 → q = p) ∧ q.instant = p.instant := by
  rcases settleMidnight_eq_ok.1 h with ⟨h24, rfl⟩ | ⟨h24, hm, hs, hn, days, d, hdays, hfit, hd, rfl⟩
  · exact ⟨fun h => absurd h h24, fun _ => rfl, rfl⟩
  · obtain ⟨-, -, rfl⟩ := dayCount_eq_ok_iff.1 hdays
    obtain ⟨-, hnum⟩ := dateOfDayCount_dayNumber hd
    have hq : dayNumber { p with year := d.year, month := d.month, day := d.day, hour := 0 } =
        p.dayNumber + 1 := hnum
    refine ⟨fun _ => ⟨hm, hs, hn, hfit.2, hq⟩, fun h => absurd h24 h, ?_⟩
    unfold instant
    rw [hq]
    simp only [h24, hm, hs, hn, nanosOfDay, ClockTime.seconds, nanosPerDay, nanosPerSecond]
    omega

/-- `24:00` is read as the next day's midnight when the day counts of its date and of the next
day fit a word; any other time is kept. -/
theorem settleMidnight_ok {p : TimeParts} (hdate : checkDate p.year p.month p.day = .ok ())
    (hmid : p.hour = 24 → p.minute = 0 ∧ p.second = 0 ∧ p.nanos = 0 ∧
      p.dayNumber + 1 ≤ Word.max) :
    ∃ q, p.settleMidnight = .ok q := by
  by_cases h24 : p.hour = 24
  · obtain ⟨hm, hs, hn, hmax⟩ := hmid h24
    have h0 := dayNumber_nonneg hdate
    obtain ⟨y, m, d, hd, -, -⟩ := dateOfDayCount_eq_ok (n := p.dayNumber + 1) (by omega)
    exact ⟨_, settleMidnight_eq_ok.2 (.inr ⟨h24, hm, hs, hn, p.dayNumber, _,
      dayCount_eq_ok_iff.2 ⟨hdate, by omega, rfl⟩, ⟨by simp only [Word.min]; omega, hmax⟩, hd, rfl⟩)⟩
  · exact ⟨p, settleMidnight_eq_ok.2 (.inl ⟨h24, rfl⟩)⟩

/-- `24:00` is refused as an invalid hour when a finer field is not zero, and as an overflow when
the day count of its date, or of the next day, does not fit a word. Any other time is kept. -/
theorem settleMidnight_eq_error {p : TimeParts} {e : TimeError}
    (hdate : checkDate p.year p.month p.day = .ok ()) (h : p.settleMidnight = .error e) :
    p.hour = 24 ∧ ((¬ (p.minute = 0 ∧ p.second = 0 ∧ p.nanos = 0) ∧ e.kind = .invalidArgument) ∨
      (p.minute = 0 ∧ p.second = 0 ∧ p.nanos = 0 ∧ Word.max < p.dayNumber + 1 ∧
        e.kind = .overflow)) := by
  have h0 := dayNumber_nonneg hdate
  unfold settleMidnight at h
  by_cases h24 : p.hour = 24
  · simp only [h24, ne_eq, not_true_eq_false, if_false, except_pure_eq] at h
    refine ⟨h24, ?_⟩
    split at h
    · rename_i hne
      cases h
      exact .inl ⟨by omega, rfl⟩
    · rename_i hzero
      simp only [not_or, not_not] at hzero
      obtain ⟨hm, hs, hn⟩ := hzero
      rcases bind_eq_error.1 h with hc | ⟨days, hdays, h⟩
      · obtain ⟨ce, hce, rfl⟩ := mapError_eq_error.1 hc
        obtain ⟨rfl, hmax⟩ := dayCount_eq_error hdate hce
        exact .inr ⟨hm, hs, hn, by omega, rfl⟩
      obtain ⟨-, -, rfl⟩ := dayCount_eq_ok_iff.1 (liftCal_eq_ok.1 hdays)
      rcases bind_eq_error.1 h with hc | ⟨next, hnext, h⟩
      · obtain ⟨hfit, rfl⟩ := Word.within_eq_error.1 hc
        refine .inr ⟨hm, hs, hn, Int.not_le.1 fun hmax => hfit ⟨?_, hmax⟩, rfl⟩
        simp only [Word.min]
        omega
      obtain ⟨-, rfl⟩ := Word.within_eq_ok.1 hnext
      rcases bind_eq_error.1 h with hc | ⟨d, -, h⟩
      · obtain ⟨ce, hce, -⟩ := mapError_eq_error.1 hc
        exact absurd hce (dateOfDayCount_ne_error (by omega))
      · cases h
  · simp only [h24, ne_eq, not_false_eq_true, if_true, except_pure_eq] at h
    cases h

/-- The offset moves the local nanoseconds of the day by its signed length, whatever its sign. -/
theorem shift_eq_sub_signedNanos (n : Int) (o : UtcOffset) :
    (if o.negative = true then n + nanosOfDay o.hours o.minutes o.seconds o.nanos
      else n - nanosOfDay o.hours o.minutes o.seconds o.nanos) = n - o.signedNanos := by
  unfold UtcOffset.signedNanos
  split <;> omega

/-- The instant less an offset splits at the start of the local day. -/
theorem instant_sub_signedNanos (p : TimeParts) (o : UtcOffset) :
    p.instant - o.signedNanos =
      p.dayNumber * nanosPerDay + (nanosOfDay p.hour p.minute p.second p.nanos - o.signedNanos) := by
  unfold instant
  omega

/-- An offset whose fields pass their checks is shorter than a day, in either direction. -/
theorem signedNanos_lt {o : UtcOffset}
    (ho : o.hours ≤ 23 ∧ o.minutes ≤ 59 ∧ o.seconds ≤ 59 ∧ o.nanos < nanosPerSecond) :
    -(nanosPerDay : Int) < o.signedNanos ∧ o.signedNanos < nanosPerDay := by
  obtain ⟨hh, hm, hs, hn⟩ := ho
  unfold UtcOffset.signedNanos nanosOfDay
  simp only [ClockTime.seconds, nanosPerDay, nanosPerSecond] at *
  split <;> omega

/-- What removing an offset needs and gives: the offset's fields pass their checks, the day counts
of the date and of the UTC day fit a word, the UTC instant is not before the calendar, and the
result is the normal time at that instant. The UTC instant splits into whole days, whole seconds of
the last day, and nanoseconds. -/
theorem applyOffset_spec {p q : TimeParts} {o : UtcOffset} (h : p.applyOffset o = .ok q) :
    (o.hours ≤ 23 ∧ o.minutes ≤ 59 ∧ o.seconds ≤ 59 ∧ o.nanos < nanosPerSecond) ∧
      checkDate p.year p.month p.day = .ok () ∧ p.dayNumber ≤ Word.max ∧
      0 ≤ p.instant - o.signedNanos ∧ (p.instant - o.signedNanos) / nanosPerDay ≤ Word.max ∧
      q.Normal ∧ q.instant = p.instant - o.signedNanos := by
  have hq := applyOffset_normal h
  obtain ⟨⟨hh, hm, hs, hn⟩, utc, start, d, t, hutc, hstart, hfit, h0, hd, ht, rfl⟩ :=
    applyOffset_eq_ok.1 h
  obtain ⟨hdate, hmax, rfl⟩ := dayCount_eq_ok_iff.1 hstart
  obtain ⟨-, hnum⟩ := dateOfDayCount_dayNumber hd
  obtain ⟨-, -, -, hsec⟩ := ClockTime.ofSeconds_spec ht
  rw [shift_eq_sub_signedNanos] at hutc
  rw [instant_sub_signedNanos, ← hutc]
  have hsplit := Int.mul_ediv_add_emod utc nanosPerDay
  have hw0 := Int.emod_nonneg utc (show (nanosPerDay : Int) ≠ 0 by decide)
  have hw1 := Int.emod_lt_of_pos utc (show (0 : Int) < nanosPerDay by decide)
  have hsplit' := Int.mul_ediv_add_emod (utc % nanosPerDay) nanosPerSecond
  have hn0 := Int.emod_nonneg (utc % nanosPerDay) (show (nanosPerSecond : Int) ≠ 0 by decide)
  have hdays : (p.dayNumber * nanosPerDay + utc) / nanosPerDay = p.dayNumber + utc / nanosPerDay := by
    rw [Int.add_comm, Int.add_mul_ediv_right _ _ (by decide), Int.add_comm]
  refine ⟨⟨hh, hm, hs, ?_⟩, hdate, hmax, ?_, by rw [hdays]; exact hfit.2, hq, ?_⟩
  · simp only [nanosPerSecond] at *
    omega
  · simp only [nanosPerDay, nanosPerSecond] at *
    omega
  · simp only [instant, dayNumber] at hnum ⊢
    simp only [nanosOfDay, ClockTime.seconds, Int.natCast_add, Int.natCast_mul,
      Int.toNat_of_nonneg hn0] at hsec ⊢
    simp only [nanosPerDay, nanosPerSecond] at *
    omega

/-- An offset is removed when its fields pass their checks and the day counts of the date and of the
UTC day fit a word, the UTC instant not lying before the calendar. The UTC day is the date's day
count moved by whole days, from zero and within a word. -/
theorem applyOffset_ok {p : TimeParts} {o : UtcOffset}
    (ho : o.hours ≤ 23 ∧ o.minutes ≤ 59 ∧ o.seconds ≤ 59 ∧ o.nanos < nanosPerSecond)
    (hdate : checkDate p.year p.month p.day = .ok ()) (hmax : p.dayNumber ≤ Word.max)
    (h0 : 0 ≤ p.instant - o.signedNanos)
    (hday : (p.instant - o.signedNanos) / nanosPerDay ≤ Word.max) :
    ∃ q, p.applyOffset o = .ok q := by
  obtain ⟨hh, hm, hs, hn⟩ := ho
  have hutc := shift_eq_sub_signedNanos (nanosOfDay p.hour p.minute p.second p.nanos) o
  rw [instant_sub_signedNanos] at h0 hday
  have hcount : dayCount p.year p.month p.day = .ok p.dayNumber :=
    dayCount_eq_ok_iff.2 ⟨hdate, hmax, rfl⟩
  generalize hu : nanosOfDay p.hour p.minute p.second p.nanos - o.signedNanos = utc at h0 hday hutc
  have hdays : (p.dayNumber * nanosPerDay + utc) / nanosPerDay = p.dayNumber + utc / nanosPerDay := by
    rw [Int.add_comm, Int.add_mul_ediv_right _ _ (by decide), Int.add_comm]
  have hsplit := Int.mul_ediv_add_emod utc nanosPerDay
  have hw0 := Int.emod_nonneg utc (show (nanosPerDay : Int) ≠ 0 by decide)
  have hw1 := Int.emod_lt_of_pos utc (show (0 : Int) < nanosPerDay by decide)
  rw [hdays] at hday
  have hdays0 : 0 ≤ p.dayNumber + utc / nanosPerDay := by
    simp only [nanosPerDay, nanosPerSecond] at *
    omega
  obtain ⟨y, m, d, hd, -, -⟩ := dateOfDayCount_eq_ok hdays0
  have hclock := ClockTime.ofSeconds_eq_ok (s := utc % nanosPerDay / nanosPerSecond)
    (Int.ediv_nonneg hw0 (by decide)) (by simp only [nanosPerDay, nanosPerSecond] at *; omega)
  exact ⟨_, applyOffset_eq_ok.2 ⟨⟨hh, hm, hs, by simp only [nanosPerSecond] at *; omega⟩, utc,
    p.dayNumber, _, _, hutc.symm, hcount, ⟨by simp only [Word.min]; omega, hday⟩, hdays0, hd, hclock,
    rfl⟩⟩

/-- **How removing an offset is refused.** An offset field out of its range is an invalid
argument. Past the checks, a day count of the date or of the UTC day that does not fit a word is an
overflow, and a UTC instant before the calendar is refused as such; the UTC day is the date's count
moved by the whole days of the local clock time less the offset, which is less than a day, so it
leaves the word only above. -/
theorem applyOffset_eq_error {p : TimeParts} {o : UtcOffset} {e : TimeError}
    (hdate : checkDate p.year p.month p.day = .ok ()) (h : p.applyOffset o = .error e) :
    (¬ (o.hours ≤ 23 ∧ o.minutes ≤ 59 ∧ o.seconds ≤ 59 ∧ o.nanos < nanosPerSecond) ∧
        e.kind = .invalidArgument) ∨
      ((o.hours ≤ 23 ∧ o.minutes ≤ 59 ∧ o.seconds ≤ 59 ∧ o.nanos < nanosPerSecond) ∧
        (((Word.max < p.dayNumber ∨ (0 ≤ p.instant - o.signedNanos ∧
            Word.max < (p.instant - o.signedNanos) / nanosPerDay)) ∧ e.kind = .overflow) ∨
          (p.dayNumber ≤ Word.max ∧ p.instant - o.signedNanos < 0 ∧ e = .beforeCalendar))) := by
  unfold applyOffset at h
  rcases checkField_bind_eq_error.1 h with ⟨hlt, rfl⟩ | ⟨hh, h⟩
  · exact .inl ⟨fun ho => absurd ho.1 (by omega), rfl⟩
  rcases checkField_bind_eq_error.1 h with ⟨hlt, rfl⟩ | ⟨hm, h⟩
  · exact .inl ⟨fun ho => absurd ho.2.1 (by omega), rfl⟩
  rcases checkField_bind_eq_error.1 h with ⟨hlt, rfl⟩ | ⟨hs, h⟩
  · exact .inl ⟨fun ho => absurd ho.2.2.1 (by omega), rfl⟩
  rcases checkField_bind_eq_error.1 h with ⟨hlt, rfl⟩ | ⟨hn, h⟩
  · exact .inl ⟨fun ho => absurd ho.2.2.2 (by omega), rfl⟩
  have hofs : o.hours ≤ 23 ∧ o.minutes ≤ 59 ∧ o.seconds ≤ 59 ∧ o.nanos < nanosPerSecond :=
    ⟨hh, hm, hs, (Nat.le_sub_one_iff_lt (by decide)).1 hn⟩
  refine .inr ⟨hofs, ?_⟩
  rcases bind_eq_error.1 h with hc | ⟨start, hstart, h⟩
  · obtain ⟨ce, hce, rfl⟩ := mapError_eq_error.1 hc
    obtain ⟨rfl, hmax⟩ := dayCount_eq_error hdate hce
    exact .inl ⟨.inl hmax, rfl⟩
  obtain ⟨-, hmax, rfl⟩ := dayCount_eq_ok_iff.1 (liftCal_eq_ok.1 hstart)
  have hbound := signedNanos_lt hofs
  have hlocal : 0 ≤ nanosOfDay p.hour p.minute p.second p.nanos := Int.natCast_nonneg _
  have hutc0 : -(nanosPerDay : Int) < nanosOfDay p.hour p.minute p.second p.nanos - o.signedNanos := by
    omega
  have h0 := dayNumber_nonneg hdate
  simp only [shift_eq_sub_signedNanos] at h
  rw [instant_sub_signedNanos]
  generalize nanosOfDay p.hour p.minute p.second p.nanos - o.signedNanos = utc at h hutc0 ⊢
  have hdays : (p.dayNumber * nanosPerDay + utc) / nanosPerDay = p.dayNumber + utc / nanosPerDay := by
    rw [Int.add_comm, Int.add_mul_ediv_right _ _ (by decide), Int.add_comm]
  have hsplit := Int.mul_ediv_add_emod utc nanosPerDay
  have hw0 := Int.emod_nonneg utc (show (nanosPerDay : Int) ≠ 0 by decide)
  have hw1 := Int.emod_lt_of_pos utc (show (0 : Int) < nanosPerDay by decide)
  rw [hdays]
  rcases bind_eq_error.1 h with hc | ⟨days, hdays', h⟩
  · obtain ⟨hfit, rfl⟩ := Word.within_eq_error.1 hc
    have habove : Word.max < p.dayNumber + utc / nanosPerDay := by
      refine Int.not_le.1 fun hle => hfit ⟨?_, hle⟩
      simp only [Word.min, nanosPerDay, nanosPerSecond] at hutc0 hsplit hw1 ⊢
      omega
    refine .inl ⟨.inr ⟨?_, habove⟩, rfl⟩
    simp only [Word.max, nanosPerDay, nanosPerSecond] at habove hsplit hw0 ⊢
    omega
  obtain ⟨-, rfl⟩ := Word.within_eq_ok.1 hdays'
  split at h
  · rename_i hneg
    simp only [except_throw_eq, except_error_bind, Except.error.injEq] at h
    refine .inr ⟨hmax, ?_, h.symm⟩
    simp only [nanosPerDay, nanosPerSecond] at hneg hsplit hw1 ⊢
    omega
  · rename_i hnneg
    rcases bind_eq_error.1 h with hc | ⟨d, -, h⟩
    · obtain ⟨ce, hce, -⟩ := mapError_eq_error.1 hc
      exact absurd hce (dateOfDayCount_ne_error (Int.not_lt.1 hnneg))
    rcases bind_eq_error.1 h with hc | ⟨t, -, h⟩
    · obtain ⟨ce, hce, -⟩ := mapError_eq_error.1 hc
      rw [ClockTime.ofSeconds_eq_ok (Int.ediv_nonneg hw0 (by decide))
        (by simp only [nanosPerDay, nanosPerSecond] at *; omega)] at hce
      cases hce
    · cases h

/-! ### Normalising -/

/-- The checks that `normalize` makes of the fields, before it counts any day: a date of the
calendar, an hour up to 24, a minute up to 59, a second up to 60, a fraction below one second; a
leap second on 30 June or 31 December only, `24:00` only on the hour; and the fields of an offset
other than zero within their ranges. -/
structure FieldsValid (p : TimeParts) : Prop where
  date : checkDate p.year p.month p.day = .ok ()
  hour_le : p.hour ≤ 24
  minute_le : p.minute ≤ 59
  second_le : p.second ≤ 60
  nanos_lt : p.nanos < nanosPerSecond
  leapSecond : p.second = 60 → (p.month = 6 ∧ p.day = 30) ∨ (p.month = 12 ∧ p.day = 31)
  midnight : p.hour = 24 → p.minute = 0 ∧ p.second = 0 ∧ p.nanos = 0
  offset : ∀ o, p.offset = some o → o.isZero = false →
    o.hours ≤ 23 ∧ o.minutes ≤ 59 ∧ o.seconds ≤ 59 ∧ o.nanos < nanosPerSecond

/-- The day counts that normalising takes fit a word: that of the date when the time is `24:00`
or carries an offset, that of the next day for `24:00`, and for an offset that of the UTC day,
which must not lie before the calendar. -/
structure CountsFit (p : TimeParts) : Prop where
  date : p.hour = 24 ∨ p.HasOffset → p.dayNumber ≤ Word.max
  nextDay : p.hour = 24 → p.dayNumber + 1 ≤ Word.max
  utcDay : p.HasOffset → 0 ≤ p.utcInstant ∧ p.utcInstant / nanosPerDay ≤ Word.max

/-- A zero offset moves nothing. -/
theorem signedNanos_of_isZero {o : UtcOffset} (h : o.isZero = true) : o.signedNanos = 0 := by
  simp only [UtcOffset.isZero, Bool.and_eq_true, beq_iff_eq] at h
  obtain ⟨⟨⟨hh, hm⟩, hs⟩, hn⟩ := h
  simp [UtcOffset.signedNanos, nanosOfDay, ClockTime.seconds, hh, hm, hs, hn]

/-- The UTC instant of a time with an offset is its instant, a leap second read as the second
before it, less the offset. -/
theorem utcInstant_of_offset {p : TimeParts} {o : UtcOffset} (ho : p.offset = some o) :
    p.utcInstant = p.leapless.instant - o.signedNanos := by
  simp [utcInstant, offsetNanos, ho]

/-- A time whose fields pass their checks is ahead of UTC by less than a day, in either
direction. -/
theorem offsetNanos_lt {p : TimeParts} (hv : p.FieldsValid) :
    -(nanosPerDay : Int) < p.offsetNanos ∧ p.offsetNanos < nanosPerDay := by
  unfold offsetNanos
  cases ho : p.offset with
  | none => simp [nanosPerDay, nanosPerSecond]
  | some o =>
    show -(nanosPerDay : Int) < o.signedNanos ∧ o.signedNanos < nanosPerDay
    cases hz : o.isZero with
    | true =>
      rw [signedNanos_of_isZero hz]
      simp [nanosPerDay, nanosPerSecond]
    | false => exact signedNanos_lt (hv.offset o ho hz)

/-- What `normalize` has checked of a time once it has read the leap second and `24:00`: the time
passes every check as soon as the fields of its offset pass theirs, `24:00` having been read only
on the hour. -/
theorem fieldsValid_of_settled {p p₂ : TimeParts} (hdate : checkDate p.year p.month p.day = .ok ())
    (hh : p.hour ≤ 24) (hm : p.minute ≤ 59) (hs : p.second ≤ 60)
    (hn : p.nanos ≤ nanosPerSecond - 1)
    (hleap : p.second = 60 → (p.month = 6 ∧ p.day = 30) ∨ (p.month = 12 ∧ p.day = 31))
    (h₂ : p.leapless.settleMidnight = .ok p₂)
    (hoffset : ∀ o, p.offset = some o → o.isZero = false →
      o.hours ≤ 23 ∧ o.minutes ≤ 59 ∧ o.seconds ≤ 59 ∧ o.nanos < nanosPerSecond) :
    p.FieldsValid := by
  obtain ⟨hmid, -, -⟩ := settleMidnight_instant h₂
  simp only [leapless_hour, leapless_minute, leapless_nanos, leapless_second] at hmid
  refine ⟨hdate, hh, hm, hs, by simp only [nanosPerSecond] at *; omega, hleap, fun h24 => ?_,
    hoffset⟩
  obtain ⟨hm0, hs0, hn0, -⟩ := hmid h24
  exact ⟨hm0, by split at hs0 <;> omega, hn0⟩

/-- `24:00` of a time whose fields pass their checks is a whole day after the start of its date,
and its offset is less than a day, so its UTC instant is not before the calendar. -/
theorem utcInstant_nonneg_of_hour {p : TimeParts} (hv : p.FieldsValid) (h24 : p.hour = 24) :
    0 ≤ p.utcInstant := by
  obtain ⟨hm, hs, hn⟩ := hv.midnight h24
  have h0 := dayNumber_nonneg hv.date
  have hoff := offsetNanos_lt hv
  have hsec : p.leapless = p := by simp [leapless, hs]
  rw [utcInstant, hsec]
  simp only [instant, nanosOfDay, ClockTime.seconds, h24, hm, hs, hn, nanosPerDay,
    nanosPerSecond] at *
  omega

/-- **A normal form passed the checks, took day counts that fit, and is the normal time at the UTC
instant.** With no offset to remove only `24:00` takes day counts, and the instant is kept; a zero
offset is dropped, and any other is removed from the date's day count. -/
theorem normalize_spec {p q : TimeParts} (h : p.normalize = .ok q) :
    p.FieldsValid ∧ p.CountsFit ∧ q.Normal ∧ q.instant = p.utcInstant := by
  have hq := normal_of_normalize h
  obtain ⟨hdate, hh, hm, hs, hn, p₁, p₂, h₁, h₂, hrest⟩ := normalize_eq_ok.1 h
  obtain ⟨hleap, rfl⟩ := settleLeapSecond_eq_ok_iff.1 h₁
  obtain ⟨hmid, hkeep, hinst⟩ := settleMidnight_instant h₂
  simp only [leapless_hour, dayNumber_leapless] at hmid hkeep
  obtain ⟨-, -, -, -, -, hoff⟩ := settleMidnight_spec h₂ (by simpa using hdate) (by simpa using hh)
  rw [leapless_offset] at hoff
  have hnext : p.hour = 24 → p.dayNumber + 1 ≤ Word.max := fun h24 => (hmid h24).2.2.2.1
  have hfields := fieldsValid_of_settled hdate hh hm hs hn hleap h₂
  have hplain : ¬ p.HasOffset → p.offsetNanos = 0 → q.instant = p₂.instant →
      p.FieldsValid ∧ p.CountsFit ∧ q.Normal ∧ q.instant = p.utcInstant := by
    intro hno hshift hqi
    refine ⟨hfields fun o ho hz => absurd ⟨o, ho, hz⟩ hno, ⟨fun hcase => ?_, hnext,
      fun hoff' => absurd hoff' hno⟩, hq, by rw [hqi, utcInstant, hshift, Int.sub_zero, hinst]⟩
    rcases hcase with h24 | hoff'
    · have := hnext h24
      omega
    · exact absurd hoff' hno
  rcases hrest with ⟨hnone, rfl⟩ | ⟨o, ho, hz, rfl⟩ | ⟨o, ho, hz, hrest⟩
  · rw [hoff] at hnone
    refine hplain ?_ (by simp [offsetNanos, hnone]) rfl
    rintro ⟨o', ho', -⟩
    simp [hnone] at ho'
  · rw [hoff] at ho
    refine hplain ?_ (by simp [offsetNanos, ho, signedNanos_of_isZero hz]) rfl
    rintro ⟨o', ho', hz'⟩
    rw [ho, Option.some.injEq] at ho'
    subst ho'
    simp_all
  · rw [hoff] at ho
    obtain ⟨hofs, -, hmax₂, h0, hday, -, hinst'⟩ := applyOffset_spec hrest
    have hutc : p.utcInstant = p₂.instant - o.signedNanos := by
      rw [utcInstant_of_offset ho, hinst]
    have hmax : p.dayNumber ≤ Word.max := by
      by_cases h24 : p.hour = 24
      · have := hnext h24
        omega
      · rwa [hkeep h24, dayNumber_leapless] at hmax₂
    refine ⟨hfields fun o' ho' _ => ?_, ⟨fun _ => hmax, hnext, fun _ => ⟨hutc ▸ h0, hutc ▸ hday⟩⟩,
      hq, hutc ▸ hinst'⟩
    rw [ho, Option.some.injEq] at ho'
    subst ho'
    exact hofs

/-- **A time that passes the checks, and whose day counts fit a word, has a normal form.** Every
check passes, so what is left is the offset's own step, with the counts of the date and of the UTC
day seen from the time after `24:00` is read. -/
theorem normalize_of_valid {p : TimeParts} (hv : p.FieldsValid) (hc : p.CountsFit) :
    ∃ q, p.normalize = .ok q := by
  have hleap : p.settleLeapSecond = .ok p.leapless := settleLeapSecond_eq_ok_iff.2 ⟨hv.leapSecond, rfl⟩
  obtain ⟨p₂, h₂⟩ := settleMidnight_ok (p := p.leapless) (by simpa using hv.date) fun h24 => by
    rw [leapless_hour] at h24
    obtain ⟨hm, hs, hn⟩ := hv.midnight h24
    simp [leapless_second, hm, hs, hn, hc.nextDay h24]
  obtain ⟨hmid, hkeep, hinst⟩ := settleMidnight_instant h₂
  obtain ⟨hdate₂, -, -, -, -, hoff⟩ := settleMidnight_spec h₂ (by simpa using hv.date)
    (by simpa using hv.hour_le)
  rw [leapless_offset] at hoff
  simp only [normalize, liftCal, Except.mapError, hv.date, checkField_of_le hv.hour_le,
    checkField_of_le hv.minute_le, checkField_of_le hv.second_le,
    checkField_of_le (show p.nanos ≤ nanosPerSecond - 1 by have := hv.nanos_lt; omega),
    except_ok_bind, hleap, h₂, hoff]
  cases ho : p.offset with
  | none => exact ⟨p₂, rfl⟩
  | some o =>
    cases hz : o.isZero with
    | true => exact ⟨{ p₂ with offset := none }, by simp [hz]⟩
    | false =>
      have hoffset : p.HasOffset := ⟨o, ho, hz⟩
      have hmax₂ : p₂.dayNumber ≤ Word.max := by
        by_cases h24 : p.hour = 24
        · rw [(hmid (by simpa using h24)).2.2.2.2, dayNumber_leapless]
          exact hc.nextDay h24
        · rw [hkeep (by simpa using h24), dayNumber_leapless]
          exact hc.date (.inr hoffset)
      have hutc : p₂.instant - o.signedNanos = p.utcInstant := by
        rw [utcInstant_of_offset ho, hinst]
      obtain ⟨h0, hday⟩ := hc.utcDay hoffset
      simp only [hz, Bool.false_eq_true, if_false]
      exact applyOffset_ok (hv.offset o ho hz) hdate₂ hmax₂ (hutc ▸ h0) (hutc ▸ hday)

/-- **Which error a refused normalisation reports.** A failed check of the date, of a clock field
or of a leap second, a `24:00` off the hour, and an offset field out of range are invalid
arguments; a day count that does not fit a word is an overflow, and a UTC instant before the
calendar is refused as such. The steps run in order: the day counts of `24:00` are taken before the
fields of an offset are checked, so a `24:00` whose next day is not countable is an overflow
whatever its offset. -/
theorem normalize_error_cases {p : TimeParts} {e : TimeError} (h : p.normalize = .error e) :
    (¬ p.FieldsValid ∧ e.kind = .invalidArgument) ∨
      (p.hour = 24 ∧ Word.max < p.dayNumber + 1 ∧ e.kind = .overflow) ∨
      (p.FieldsValid ∧ 0 ≤ p.utcInstant ∧ e.kind = .overflow) ∨
      (p.FieldsValid ∧ p.utcInstant < 0 ∧ e = .beforeCalendar) := by
  unfold normalize at h
  rcases bind_eq_error.1 h with hc | ⟨_, hdate, h⟩
  · obtain ⟨ce, hce, rfl⟩ := mapError_eq_error.1 hc
    exact .inl ⟨fun hv => (by rw [hv.date] at hce; cases hce), kind_of_checkDate_eq_error hce⟩
  replace hdate := liftCal_eq_ok.1 hdate
  rcases checkField_bind_eq_error.1 h with ⟨hlt, rfl⟩ | ⟨hh, h⟩
  · exact .inl ⟨fun hv => absurd hv.hour_le (by omega), rfl⟩
  rcases checkField_bind_eq_error.1 h with ⟨hlt, rfl⟩ | ⟨hm, h⟩
  · exact .inl ⟨fun hv => absurd hv.minute_le (by omega), rfl⟩
  rcases checkField_bind_eq_error.1 h with ⟨hlt, rfl⟩ | ⟨hs, h⟩
  · exact .inl ⟨fun hv => absurd hv.second_le (by omega), rfl⟩
  rcases checkField_bind_eq_error.1 h with ⟨hlt, rfl⟩ | ⟨hn, h⟩
  · exact .inl ⟨fun hv => absurd hv.nanos_lt (by omega), rfl⟩
  rcases bind_eq_error.1 h with hc | ⟨p₁, h₁, h⟩
  · obtain ⟨h60, hday, hk⟩ := settleLeapSecond_eq_error hc
    exact .inl ⟨fun hv => hday (hv.leapSecond h60), hk⟩
  obtain ⟨hleap, rfl⟩ := settleLeapSecond_eq_ok_iff.1 h₁
  have hdate₁ : checkDate p.leapless.year p.leapless.month p.leapless.day = .ok () := by
    simpa using hdate
  rcases bind_eq_error.1 h with hc | ⟨p₂, h₂, h⟩
  · obtain ⟨h24, hcase⟩ := settleMidnight_eq_error hdate₁ hc
    rw [leapless_hour] at h24
    rcases hcase with ⟨hne, hk⟩ | ⟨-, -, -, hmax, hk⟩
    · refine .inl ⟨fun hv => hne ?_, hk⟩
      obtain ⟨hm0, hs0, hn0⟩ := hv.midnight h24
      simp [leapless_second, hm0, hs0, hn0]
    · exact .inr (.inl ⟨h24, by simpa using hmax, hk⟩)
  obtain ⟨-, -, hinst⟩ := settleMidnight_instant h₂
  obtain ⟨hdate₂, -, -, -, -, hoff⟩ := settleMidnight_spec h₂ hdate₁ (by simpa using hh)
  rw [leapless_offset] at hoff
  have hfields := fieldsValid_of_settled hdate hh hm hs hn hleap h₂
  split at h
  · rename_i o ho
    rw [hoff] at ho
    split at h
    · cases h
    · rename_i hz
      rw [Bool.not_eq_true] at hz
      rcases applyOffset_eq_error hdate₂ h with ⟨hofs, hk⟩ | ⟨hofs, hcounts⟩
      · exact .inl ⟨fun hv => hofs (hv.offset o ho hz), hk⟩
      have hv : p.FieldsValid := hfields fun o' ho' _ => by
        rw [ho, Option.some.injEq] at ho'
        exact ho' ▸ hofs
      have hutc : p₂.instant - o.signedNanos = p.utcInstant := by
        rw [utcInstant_of_offset ho, hinst]
      rw [hutc] at hcounts
      rcases hcounts with ⟨hmax | ⟨h0, -⟩, hk⟩ | ⟨-, hneg, rfl⟩
      · refine .inr (.inr (.inl ⟨hv, ?_, hk⟩))
        have hbound := signedNanos_lt hofs
        have hlocal : (0 : Int) ≤ nanosOfDay p₂.hour p₂.minute p₂.second p₂.nanos :=
          Int.natCast_nonneg _
        rw [← hutc, instant]
        simp only [Word.max, nanosPerDay, nanosPerSecond] at hmax hbound ⊢
        omega
      · exact .inr (.inr (.inl ⟨hv, h0, hk⟩))
      · exact .inr (.inr (.inr ⟨hv, hneg, rfl⟩))
  · cases h

/-- **Normalising finds the normal time at the UTC instant a time denotes.** What `normalize`
returns is a normal time: without offset, a date of the calendar, a clock time below `24:00` and
a fraction below one second. Its instant is that of the time read at face value, a leap second
read as the second before it and `24:00` as the next day's midnight, less the offset. Normalising
fails exactly when a field fails its check, or when a day count it takes does not fit a signed
64-bit word: that of the date for `24:00` or an offset, that of the next day for `24:00`, and that
of the UTC day for an offset, which must not lie before the calendar.

The error says which. A time whose fields pass their checks is refused as lying before the
calendar exactly when its UTC instant is negative, and as an overflow otherwise. A time that fails
a check is refused as an invalid argument, unless it is a `24:00` whose next day has no count: that
count is taken before the fields of an offset are checked, and its overflow is reported first. -/
theorem normalize_utc (p : TimeParts) :
    (∀ q, p.normalize = .ok q → q.Normal ∧ q.instant = p.utcInstant) ∧
      ((∃ e, p.normalize = .error e) ↔ ¬ (p.FieldsValid ∧ p.CountsFit)) ∧
      ∀ e, p.normalize = .error e →
        (e = .beforeCalendar ↔ p.FieldsValid ∧ p.utcInstant < 0) ∧
        (p.FieldsValid → e ≠ .beforeCalendar → e.kind = .overflow) ∧
        (¬ p.FieldsValid → e.kind = .invalidArgument ∨
          e.kind = .overflow ∧ p.hour = 24 ∧ Word.max < p.dayNumber + 1) := by
  refine ⟨fun q h => (normalize_spec h).2.2, ⟨fun ⟨e, he⟩ hvc => ?_, fun hnot => ?_⟩,
    fun e he => ?_⟩
  · obtain ⟨q, hq⟩ := normalize_of_valid hvc.1 hvc.2
    rw [hq] at he
    cases he
  · cases h : p.normalize with
    | error e => exact ⟨e, rfl⟩
    | ok q => exact absurd ⟨(normalize_spec h).1, (normalize_spec h).2.1⟩ hnot
  have hkind : e.kind ≠ .outOfRange → e ≠ .beforeCalendar := fun hk hb => hk (hb ▸ rfl)
  rcases normalize_error_cases he with ⟨hv, hk⟩ | ⟨h24, hmax, hk⟩ | ⟨hv, h0, hk⟩ |
    ⟨hv, hneg, rfl⟩
  · exact ⟨⟨fun hb => absurd hb (hkind (by rw [hk]; decide)), fun hvn => absurd hvn.1 hv⟩,
      fun hvn => absurd hvn hv, fun _ => .inl hk⟩
  · refine ⟨⟨fun hb => absurd hb (hkind (by rw [hk]; decide)), fun hvn => ?_⟩, fun _ _ => hk,
      fun _ => .inr ⟨hk, h24, hmax⟩⟩
    exact absurd hvn.2 (Int.not_lt.2 (utcInstant_nonneg_of_hour hvn.1 h24))
  · exact ⟨⟨fun hb => absurd hb (hkind (by rw [hk]; decide)),
      fun hvn => absurd hvn.2 (Int.not_lt.2 h0)⟩, fun _ _ => hk, fun hnv => absurd hv hnv⟩
  · exact ⟨⟨fun _ => ⟨hv, hneg⟩, fun _ => rfl⟩, fun _ hne => absurd rfl hne,
      fun hnv => absurd hv hnv⟩

/-- Half past midnight at `+01:00` on the day after the last day a word counts: every field passes
its check and the UTC instant falls on that last day, yet normalising refuses the time, as the day
count of its local date does not fit. -/
theorem normalize_refuses_uncountable_local_date :
    let p : TimeParts := { year := 25252734927766554, month := 7, day := 28, minute := 30,
                           offset := some { hours := 1 } }
    p.FieldsValid ∧ 0 ≤ p.utcInstant ∧ p.utcInstant / nanosPerDay = Word.max ∧
      p.normalize = .error (.calendar (.overflow .dayCount)) := by
  dsimp only
  refine ⟨⟨rfl, by decide, by decide, by decide, by decide, by decide, by decide, ?_⟩, by decide,
    by decide, rfl⟩
  rintro o ho -
  cases ho
  decide

end TimeParts

end Chronology
