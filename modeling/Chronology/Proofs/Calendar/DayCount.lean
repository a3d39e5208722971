import Chronology.Calendar.Gregorian
import Chronology.Proofs.Except
import Mathlib.Tactic.SplitIfs
import Mathlib.Tactic.Set

/-!
# Day counts and dates

The calendar numbers its days from 1 January of year zero. `dayCount` takes a date to its number
and `dateOfDayCount` takes a number back to its date; this module proves that the two are inverse
to each other, on every date of the calendar and on every day count from zero on.

The argument follows the definitions. A year starts `daysBeforeYear` days after the start of the
calendar: whole blocks of 400 years, of 146097 days each, then the years before it in its block,
each of 365 days and one more for a leap year. Going back, `yearInBlock` guesses the year from the
day's position in its block and corrects the guess by one year either way. `yearInBlock_spec`
shows that the correction always lands on the year whose span holds the day; that year is unique
because the spans of consecutive years follow each other. The month of a day of the year is found
in the same way in the table of month starts (`monthAndDay_spec`).

## Main results

* `checkDate_eq_ok`, `dayCount_eq_ok`: when a date is accepted, and the day count it has.
* `dateOfDayCount_dayCount`: the date of a date's day count is that date.
* `dateOfDayCount_eq_ok`, `dayCount_dateOfDayCount`: every day count from zero has a date, and it
  is that date's day count.
-/

namespace Chronology.Gregorian

/-! ### Leap years -/

theorem isLeap_emod (y : Int) : isLeap (y % 400) = isLeap y := by
  have h4 : y % 400 % 4 = y % 4 := by omega
  have h100 : y % 400 % 100 = y % 100 := by omega
  simp [isLeap, h4, h100]

/-- A year from zero is a leap year when four divides it and a hundred does not, or when four
hundred does. -/
theorem isLeap_natCast (y : Nat) :
    isLeap (y : Int) = true ↔ (4 ∣ y ∧ ¬ 100 ∣ y) ∨ 400 ∣ y := by
  simp only [isLeap, Bool.or_eq_true, Bool.and_eq_true, beq_iff_eq, bne_iff_ne, ne_eq]
  omega

/-- Each year adds one to the count of leap years before the next when it is a leap year. The counts
of the multiples of 4, 100 and 400 below a year each grow by one at a year that is such a multiple,
and a century is a leap year only when 400 divides it. -/
theorem leapYearsBefore_succ (y : Nat) :
    leapYearsBefore (y + 1) = leapYearsBefore y + if isLeap y then 1 else 0 := by
  cases y with
  | zero => rfl
  | succ k =>
    have hleap := isLeap_natCast (k + 1)
    have h100 : 400 ∣ k + 1 → 100 ∣ k + 1 := Nat.dvd_trans (by decide)
    have h4 : 100 ∣ k + 1 → 4 ∣ k + 1 := Nat.dvd_trans (by decide)
    have hle : k / 100 ≤ k / 4 := Nat.div_le_div_left (by decide) (by decide)
    simp only [leapYearsBefore, Nat.add_one_ne_zero, if_false, Nat.add_sub_cancel]
    by_cases d400 : 400 ∣ k + 1
    · rw [Nat.succ_div_of_dvd d400, Nat.succ_div_of_dvd (h100 d400),
        Nat.succ_div_of_dvd (h4 (h100 d400)), if_pos (hleap.2 (.inr d400))]
      omega
    by_cases d100 : 100 ∣ k + 1
    · rw [Nat.succ_div_of_not_dvd d400, Nat.succ_div_of_dvd d100, Nat.succ_div_of_dvd (h4 d100),
        if_neg fun hl => (hleap.1 hl).elim (fun h => h.2 d100) d400]
      omega
    by_cases d4 : 4 ∣ k + 1
    · rw [Nat.succ_div_of_not_dvd d400, Nat.succ_div_of_not_dvd d100, Nat.succ_div_of_dvd d4,
        if_pos (hleap.2 (.inl ⟨d4, d100⟩))]
      omega
    · rw [Nat.succ_div_of_not_dvd d400, Nat.succ_div_of_not_dvd d100, Nat.succ_div_of_not_dvd d4,
        if_neg fun hl => (hleap.1 hl).elim (fun h => d4 h.1) d400]

theorem leapYearsBefore_le (y : Nat) : leapYearsBefore y ≤ y / 4 + 1 := by
  simp only [leapYearsBefore]
  split_ifs <;> omega

theorem daysInYear_eq (y : Int) : daysInYear y = if isLeap y then 366 else 365 := by
  unfold daysInYear
  cases isLeap y <;> rfl

/-! ### Years of a 400-year block -/

theorem daysBeforeYearInBlock_succ (y : Nat) :
    daysBeforeYearInBlock (y + 1) = daysBeforeYearInBlock y + daysInYear y := by
  simp only [daysBeforeYearInBlock, leapYearsBefore_succ, daysInYear_eq]
  split <;> omega

theorem daysBeforeYearInBlock_le_of_le {a b : Nat} (h : a ≤ b) :
    daysBeforeYearInBlock a ≤ daysBeforeYearInBlock b := by
  obtain ⟨k, rfl⟩ := Nat.exists_eq_add_of_le h
  induction k with
  | zero => exact Nat.le_refl _
  | succ k ih =>
    rw [← Nat.add_assoc, daysBeforeYearInBlock_succ]
    have := ih (Nat.le_add_right _ _)
    omega

/-- The guess of `yearInBlock` is off by at most one year, and the correction finds the year whose
span holds the day. The guess is either one year short or one year long when it is not the year
itself. -/
theorem yearInBlock_spec (rem : Nat) (h : rem < daysPer400Years) :
    daysBeforeYearInBlock (yearInBlock rem) ≤ rem ∧
      rem < daysBeforeYearInBlock (yearInBlock rem + 1) := by
  have hk := leapYearsBefore_le (rem / 365)
  simp only [daysPer400Years] at h
  simp only [yearInBlock]
  have hg := Nat.div_add_mod (rem - leapYearsBefore (rem / 365)) 365
  have hgm := Nat.mod_lt (rem - leapYearsBefore (rem / 365)) (show 0 < 365 by decide)
  generalize (rem - leapYearsBefore (rem / 365)) / 365 = g at hg ⊢
  split_ifs with hup hdown
  · have h2 := leapYearsBefore_le (g + 1 + 1)
    exact ⟨hup, by simp only [daysBeforeYearInBlock] at *; omega⟩
  · have h0 := leapYearsBefore_le (g - 1)
    have hg1 : 1 ≤ g := by
      rcases Nat.eq_zero_or_pos g with rfl | hg1
      · simp [daysBeforeYearInBlock, leapYearsBefore] at hdown
      · exact hg1
    rw [Nat.sub_add_cancel hg1]
    exact ⟨by simp only [daysBeforeYearInBlock] at *; omega, hdown⟩
  · exact ⟨Nat.le_of_not_lt hdown, Nat.lt_of_not_le hup⟩

theorem yearInBlock_lt {rem : Nat} (h : rem < daysPer400Years) : yearInBlock rem < 400 := by
  have hs := yearInBlock_spec rem h
  refine Nat.lt_of_not_le fun hge => ?_
  have := daysBeforeYearInBlock_le_of_le hge
  rw [daysBeforeYearInBlock_400] at this
  omega

/-- The year of a block whose span holds a day is the one that `yearInBlock` finds. -/
theorem yearInBlock_eq {rem y : Nat} (hy : y < 400) (hlo : daysBeforeYearInBlock y ≤ rem)
    (hhi : rem < daysBeforeYearInBlock (y + 1)) : yearInBlock rem = y := by
  have hrem : rem < daysPer400Years := by
    have := daysBeforeYearInBlock_le_of_le (show y + 1 ≤ 400 by omega)
    rw [daysBeforeYearInBlock_400] at this
    omega
  obtain ⟨hlo', hhi'⟩ := yearInBlock_spec rem hrem
  rcases Nat.lt_trichotomy (yearInBlock rem) y with h | h | h
  · have := daysBeforeYearInBlock_le_of_le (show yearInBlock rem + 1 ≤ y by omega)
    omega
  · exact h
  · have := daysBeforeYearInBlock_le_of_le (show y + 1 ≤ yearInBlock rem by omega)
    omega

/-! ### Months of a year -/

/-- The prefix of `l` up to a threshold: every element taken is at most `x`, and the first element
left is above it. -/
theorem takeWhile_le_spec (l : List Nat) (x : Nat) :
    (∀ i, i < (l.takeWhile fun s => decide (s ≤ x)).length → l.getD i 0 ≤ x) ∧
      ((l.takeWhile fun s => decide (s ≤ x)).length < l.length →
        x < l.getD (l.takeWhile fun s => decide (s ≤ x)).length 0) := by
  induction l with
  | nil => simp
  | cons a l ih =>
    by_cases ha : a ≤ x
    · simp only [List.takeWhile_cons_of_pos (p := fun s => decide (s ≤ x)) (by simpa using ha),
        List.length_cons, List.getD_cons_succ]
      refine ⟨fun i hi => ?_, fun hk => ih.2 (by omega)⟩
      cases i with
      | zero => simpa using ha
      | succ i => simpa using ih.1 i (by omega)
    · simp only [List.takeWhile_cons_of_neg (p := fun s => decide (s ≤ x)) (by simpa using ha)]
      simp
      omega

theorem getD_drop_one (l : List Nat) (i : Nat) : (l.drop 1).getD i 0 = l.getD (i + 1) 0 := by
  simp [List.getD_eq_getElem?_getD]

/-- The months start on increasing days of the year. -/
theorem daysBeforeMonth_lt (leap : Bool) :
    ∀ i < 13, ∀ j < 13, i < j →
      (daysBeforeMonth leap).getD i 0 < (daysBeforeMonth leap).getD j 0 := by
  cases leap <;> decide

theorem daysBeforeMonth_le (leap : Bool) {i j : Nat} (hij : i ≤ j) (hj : j ≤ 12) :
    (daysBeforeMonth leap).getD i 0 ≤ (daysBeforeMonth leap).getD j 0 := by
  rcases Nat.lt_or_eq_of_le hij with h | rfl
  · exact Nat.le_of_lt (daysBeforeMonth_lt leap i (by omega) j (by omega) h)
  · exact Nat.le_refl _

/-- Within the year, `monthAndDay` takes the last month that starts on or before the day. -/
theorem monthAndDay_eq (leap : Bool) (doy : Nat) (h1 : 1 ≤ doy)
    (h2 : doy ≤ (daysBeforeMonth leap).getD 12 0) :
    monthAndDay doy leap =
      .ok ((((daysBeforeMonth leap).drop 1).takeWhile fun s => decide (s ≤ doy - 1)).length + 1,
        doy - 1 - (daysBeforeMonth leap).getD
          (((daysBeforeMonth leap).drop 1).takeWhile fun s => decide (s ≤ doy - 1)).length 0 + 1) := by
  simp only [monthAndDay]
  rw [if_neg (by omega)]
  rfl

/-- Every day of the year falls in one of the twelve months, on a day that the month has. The month
found is one of the twelve, and its span holds the day. -/
theorem monthAndDay_spec (leap : Bool) (doy : Nat) (h1 : 1 ≤ doy)
    (h2 : doy ≤ (daysBeforeMonth leap).getD 12 0) :
    ∃ m d, monthAndDay doy leap = .ok (m, d) ∧ 1 ≤ m ∧ m ≤ 12 ∧ 1 ≤ d ∧
      d ≤ monthLength leap m ∧ (daysBeforeMonth leap).getD (m - 1) 0 + d = doy := by
  have hlen : ((daysBeforeMonth leap).drop 1).length = 12 := by cases leap <;> rfl
  have h0 : (daysBeforeMonth leap).getD 0 0 = 0 := by cases leap <;> rfl
  have hspec := takeWhile_le_spec ((daysBeforeMonth leap).drop 1) (doy - 1)
  rw [monthAndDay_eq leap doy h1 h2]
  generalize (((daysBeforeMonth leap).drop 1).takeWhile fun s => decide (s ≤ doy - 1)).length = k
    at hspec ⊢
  simp only [getD_drop_one, hlen] at hspec
  have hk : k < 12 := by
    refine Nat.lt_of_not_le fun hk => ?_
    have : (daysBeforeMonth leap).getD 12 0 ≤ doy - 1 := hspec.1 11 (by omega)
    omega
  have hup := hspec.2 hk
  have hlow : (daysBeforeMonth leap).getD k 0 ≤ doy - 1 := by
    rcases Nat.eq_zero_or_pos k with rfl | hpos
    · omega
    · have := hspec.1 (k - 1) (by omega)
      rwa [Nat.sub_add_cancel hpos] at this
  refine ⟨k + 1, _, rfl, by omega, by omega, by omega, ?_, ?_⟩
  · simp only [monthLength, Nat.add_sub_cancel]
    omega
  · simp only [Nat.add_sub_cancel]
    omega

/-- The day of a month counted from the start of the year gives back the month and the day. Two
months whose spans share a day are the same month. -/
theorem monthAndDay_dayOfYear (leap : Bool) {m d : Nat} (hm1 : 1 ≤ m) (hm2 : m ≤ 12)
    (hd1 : 1 ≤ d) (hd2 : d ≤ monthLength leap m) :
    monthAndDay ((daysBeforeMonth leap).getD (m - 1) 0 + d) leap = .ok (m, d) := by
  simp only [monthLength] at hd2
  have hend := daysBeforeMonth_le leap hm2 (Nat.le_refl 12)
  obtain ⟨m', d', hmd, hm1', hm2', hd1', hd2', hsum⟩ :=
    monthAndDay_spec leap ((daysBeforeMonth leap).getD (m - 1) 0 + d) (by omega) (by omega)
  simp only [monthLength] at hd2'
  have hm : m' = m := by
    rcases Nat.lt_trichotomy m' m with h | h | h
    · have := daysBeforeMonth_le leap (show m' ≤ m - 1 by omega) (by omega)
      omega
    · exact h
    · have := daysBeforeMonth_le leap (show m ≤ m' - 1 by omega) (by omega)
      omega
  subst hm
  rw [hmd, show d' = d by omega]

/-! ### Day counts -/

/-- Days from the start of the calendar to the first day of a year from zero on: the whole blocks
of 400 years before it, then the years before it in its block. -/
def daysBeforeYear (y : Int) : Int :=
  y / 400 * daysPer400Years + daysBeforeYearInBlock (y % 400).toNat

/-- A date is accepted when its year is from zero on, its month one of the twelve, and its day
one of the month's. -/
theorem checkDate_eq_ok {y : Int} {m d : Nat} :
    checkDate y m d = .ok () ↔
      0 ≤ y ∧ 1 ≤ m ∧ m ≤ 12 ∧ 1 ≤ d ∧ d ≤ monthLength (isLeap y) m := by
  unfold checkDate checkYear daysInMonth checkMonth
  by_cases hy : y < 0
  · have hy' : ¬0 ≤ y := Int.not_le.2 hy
    simp [hy, hy']
  · by_cases hm : 1 ≤ m ∧ m ≤ 12
    · by_cases hd : 1 ≤ d ∧ d ≤ monthLength (isLeap y) m
      · simp [hy, hm, hd]
        omega
      · simp [hy, hm, hd]
    · simp [hy, hm]
      omega

/-- A refused date is an invalid argument: a year before year zero, a month outside 1 to 12, or a
day its month does not have. -/
theorem kind_of_checkDate_eq_error {y : Int} {m d : Nat} {e : CalendarError}
    (h : checkDate y m d = .error e) : e.kind = .invalidArgument := by
  unfold checkDate checkYear daysInMonth checkMonth at h
  by_cases hy : y < 0
  · simp only [hy, if_true, except_error_bind, Except.error.injEq] at h
    subst h
    rfl
  · by_cases hm : 1 ≤ m ∧ m ≤ 12
    · simp only [hy, hm, if_false, if_true, except_ok_bind, except_pure_eq, and_self] at h
      split at h
      · cases h
      · cases h
        rfl
    · simp only [hy, hm, if_false, except_ok_bind, except_error_bind, Except.error.injEq] at h
      subst h
      rfl

theorem dayOfYear_eq_ok {y : Int} {m d n : Nat} :
    dayOfYear y m d = .ok n ↔
      checkDate y m d = .ok () ∧ n = (daysBeforeMonth (isLeap y)).getD (m - 1) 0 + d := by
  unfold dayOfYear
  cases h : checkDate y m d with
  | error e => simp
  | ok u => simp [eq_comm]

/-- The length of each of the twelve months. -/
theorem daysInMonth_eq_ok {y : Int} {m : Nat} (hm1 : 1 ≤ m) (hm2 : m ≤ 12) :
    daysInMonth y m = .ok (monthLength (isLeap y) m) := by
  simp [daysInMonth, checkMonth, hm1, hm2]

/-- The first day of each of the twelve months of a year from zero on is a date. -/
theorem checkDate_month_start {y : Int} {m : Nat} (hy : 0 ≤ y) (hm1 : 1 ≤ m) (hm2 : m ≤ 12) :
    checkDate y m 1 = .ok () := by
  refine checkDate_eq_ok.2 ⟨hy, hm1, hm2, Nat.le_refl 1, ?_⟩
  have := daysBeforeMonth_lt (isLeap y) (m - 1) (by omega) m (by omega) (by omega)
  simp only [monthLength]
  omega

/-- The day count of an accepted date: the days before its year, then its day of the year. -/
theorem dayCount_eq_ok {y : Int} {m d : Nat} {n : Int} :
    dayCount y m d = .ok n ↔ checkDate y m d = .ok () ∧ Word.Fits n ∧
      n = daysBeforeYear y + (daysBeforeMonth (isLeap y)).getD (m - 1) 0 + d - 1 := by
  unfold dayCount
  rw [bind_eq_ok]
  constructor
  · rintro ⟨doy, hdoy, hn⟩
    obtain ⟨hdate, rfl⟩ := dayOfYear_eq_ok.1 hdoy
    obtain ⟨hfit, rfl⟩ := Word.within_eq_ok.1 hn
    have := checkDate_eq_ok.1 hdate
    exact ⟨hdate, hfit, by simp only [daysBeforeYear]; omega⟩
  · rintro ⟨hdate, hfit, rfl⟩
    have := checkDate_eq_ok.1 hdate
    refine ⟨_, dayOfYear_eq_ok.2 ⟨hdate, rfl⟩, Word.within_eq_ok.2 ⟨?_, ?_⟩⟩
    · have heq : y / 400 * ↑daysPer400Years + ↑(daysBeforeYearInBlock (y % 400).toNat +
          ((daysBeforeMonth (isLeap y)).getD (m - 1) 0 + d) - 1) =
          daysBeforeYear y + (daysBeforeMonth (isLeap y)).getD (m - 1) 0 + d - 1 := by
        simp only [daysBeforeYear]; omega
      rwa [heq]
    · simp only [daysBeforeYear]; omega

/-- The day count of a date of the calendar is its exact count, refused as an overflow when that
does not fit a word: the block product and the position in the block are one sum. -/
theorem dayCount_eq_within {y : Int} {m d : Nat} (h : checkDate y m d = .ok ()) :
    dayCount y m d = Word.within (.overflow .dayCount)
      (daysBeforeYear y + (daysBeforeMonth (isLeap y)).getD (m - 1) 0 + d - 1) := by
  obtain ⟨-, -, -, hd, -⟩ := checkDate_eq_ok.1 h
  have hdoy : dayOfYear y m d = .ok ((daysBeforeMonth (isLeap y)).getD (m - 1) 0 + d) :=
    dayOfYear_eq_ok.2 ⟨h, rfl⟩
  unfold dayCount
  rw [hdoy, except_ok_bind]
  dsimp only
  congr 1
  simp only [daysBeforeYear]
  omega

/-- **The date of a date's day count is that date.** The year is read from its place in its 400-year
block, and the day from its place in the block, which lies in the span of that year. -/
theorem dateOfDayCount_dayCount {y : Int} {m d : Nat} {n : Int} (h : dayCount y m d = .ok n) :
    dateOfDayCount n = .ok ⟨y, m, d⟩ := by
  obtain ⟨hdate, -, rfl⟩ := dayCount_eq_ok.1 h
  obtain ⟨hy, hm1, hm2, hd1, hd2⟩ := checkDate_eq_ok.1 hdate
  obtain ⟨r, hr⟩ : ∃ r : Nat, (r : Int) = y % 400 := ⟨(y % 400).toNat, by omega⟩
  have hr400 : r < 400 := by omega
  have hrn : (y % 400).toNat = r := by omega
  have hleap : isLeap r = isLeap y := by rw [hr, isLeap_emod]
  have hend := daysBeforeMonth_le (isLeap y) hm2 (Nat.le_refl 12)
  simp only [monthLength] at hd2
  have hnext := daysBeforeYearInBlock_succ r
  rw [daysInYear, hleap] at hnext
  have hblock := daysBeforeYearInBlock_le_of_le (show r + 1 ≤ 400 by omega)
  rw [daysBeforeYearInBlock_400] at hblock
  have hyear : yearInBlock (daysBeforeYearInBlock r +
      ((daysBeforeMonth (isLeap y)).getD (m - 1) 0 + d) - 1) = r :=
    yearInBlock_eq hr400 (by omega) (by omega)
  have hn : (daysBeforeYear y + (daysBeforeMonth (isLeap y)).getD (m - 1) 0 + d - 1).toNat =
      (y / 400).toNat * daysPer400Years + (daysBeforeYearInBlock r +
        ((daysBeforeMonth (isLeap y)).getD (m - 1) 0 + d) - 1) := by
    simp only [daysBeforeYear, daysPer400Years, hrn] at *
    omega
  have hdiv : ((y / 400).toNat * daysPer400Years + (daysBeforeYearInBlock r +
      ((daysBeforeMonth (isLeap y)).getD (m - 1) 0 + d) - 1)) / daysPer400Years =
      (y / 400).toNat := by
    simp only [daysPer400Years] at *
    omega
  have hmod : ((y / 400).toNat * daysPer400Years + (daysBeforeYearInBlock r +
      ((daysBeforeMonth (isLeap y)).getD (m - 1) 0 + d) - 1)) % daysPer400Years =
      daysBeforeYearInBlock r + ((daysBeforeMonth (isLeap y)).getD (m - 1) 0 + d) - 1 := by
    simp only [daysPer400Years] at *
    omega
  unfold dateOfDayCount
  rw [if_neg (by simp only [daysBeforeYear, daysPer400Years] at *; omega), hn]
  simp only [except_pure_eq, hdiv, hmod, hyear, hleap]
  rw [show daysBeforeYearInBlock r + ((daysBeforeMonth (isLeap y)).getD (m - 1) 0 + d) - 1 -
      daysBeforeYearInBlock r + 1 = (daysBeforeMonth (isLeap y)).getD (m - 1) 0 + d by omega,
    monthAndDay_dayOfYear (isLeap y) hm1 hm2 hd1 (by simp only [monthLength]; omega)]
  simp only [except_ok_bind, Except.ok.injEq, Date.mk.injEq, and_true]
  omega

theorem dateOfDayCount_nonneg {n : Int} {date : Date} (h : dateOfDayCount n = .ok date) : 0 ≤ n := by
  refine Int.not_lt.1 fun hn => ?_
  simp [dateOfDayCount, hn] at h

/-- Every day count from zero has a date of the calendar, and the date's place in the calendar is
that count. The count splits into its 400-year block and the year of the block that holds it, then
the day of that year and its month. -/
theorem dateOfDayCount_eq_ok {n : Int} (hn : 0 ≤ n) :
    ∃ y m d, dateOfDayCount n = .ok ⟨y, m, d⟩ ∧ checkDate y m d = .ok () ∧
      n = daysBeforeYear y + (daysBeforeMonth (isLeap y)).getD (m - 1) 0 + d - 1 := by
  have hsplit := Nat.div_add_mod n.toNat daysPer400Years
  have hrem : n.toNat % daysPer400Years < daysPer400Years := Nat.mod_lt _ (by decide)
  set q := n.toNat / daysPer400Years
  set rem := n.toNat % daysPer400Years
  obtain ⟨hlo, hhi⟩ := yearInBlock_spec _ hrem
  have hyb := yearInBlock_lt hrem
  set yb := yearInBlock rem
  have hnext := daysBeforeYearInBlock_succ yb
  rw [daysInYear] at hnext
  obtain ⟨m, d, hmd, hm1, hm2, hd1, hd2, hsum⟩ :=
    monthAndDay_spec (isLeap yb) (rem - daysBeforeYearInBlock yb + 1) (by omega) (by omega)
  have hmod : ((q : Int) * 400 + (yb : Int)) % 400 = yb := by omega
  have hleap : isLeap ((q : Int) * 400 + (yb : Int)) = isLeap yb := by rw [← isLeap_emod, hmod]
  refine ⟨(q : Int) * 400 + (yb : Int), m, d, ?_, ?_, ?_⟩
  · unfold dateOfDayCount
    rw [if_neg (by omega)]
    simp only [except_pure_eq]
    rw [hmd]
    rfl
  · exact checkDate_eq_ok.2
      ⟨Int.add_nonneg (Int.mul_nonneg (Int.natCast_nonneg q) (by decide)) (Int.natCast_nonneg yb),
        hm1, hm2, hd1, by rwa [hleap]⟩
  · have htoNat : (((q : Int) * 400 + (yb : Int)) % 400).toNat = yb := by omega
    rw [hleap]
    simp only [daysBeforeYear, htoNat, daysPer400Years] at *
    omega

/-- The date of a day count from zero is never refused. -/
theorem dateOfDayCount_ne_error {n : Int} {e : CalendarError} (hn : 0 ≤ n) :
    dateOfDayCount n ≠ .error e := by
  obtain ⟨y, m, d, hd, -, -⟩ := dateOfDayCount_eq_ok hn
  rw [hd]
  exact nofun

/-- **The day count of the date of a day count is that count,** when the count fits a word. -/
theorem dayCount_dateOfDayCount {n y : Int} {m d : Nat} (h : dateOfDayCount n = .ok ⟨y, m, d⟩)
    (hfit : Word.Fits n) : dayCount y m d = .ok n := by
  obtain ⟨y', m', d', hdate, hvalid, heq⟩ := dateOfDayCount_eq_ok (dateOfDayCount_nonneg h)
  rw [hdate] at h
  cases h
  exact dayCount_eq_ok.2 ⟨hvalid, hfit, heq⟩

/-- The days before a year from zero on are at least as many as the years. -/
theorem le_daysBeforeYear {y : Int} (hy : 0 ≤ y) : y ≤ daysBeforeYear y := by
  have hblock : (y % 400).toNat ≤ daysBeforeYearInBlock (y % 400).toNat := by
    unfold daysBeforeYearInBlock
    omega
  unfold daysBeforeYear
  simp only [daysPer400Years]
  omega

/-- The year of a day count is at most the count. -/
theorem year_le_of_dateOfDayCount {n : Int} {date : Date} (h : dateOfDayCount n = .ok date) :
    date.year ≤ n := by
  obtain ⟨y, m, d, hdate, hvalid, heq⟩ := dateOfDayCount_eq_ok (dateOfDayCount_nonneg h)
  rw [hdate] at h
  cases h
  obtain ⟨hy, -, -, hd1, -⟩ := checkDate_eq_ok.1 hvalid
  have := le_daysBeforeYear hy
  dsimp only
  omega

/-- A day count is never negative. -/
theorem dayCount_nonneg {y : Int} {m d : Nat} {n : Int} (h : dayCount y m d = .ok n) : 0 ≤ n :=
  dateOfDayCount_nonneg (dateOfDayCount_dayCount h)

/-- Two dates with one day count are one date. -/
theorem dayCount_inj {y y' : Int} {m m' d d' : Nat} {n : Int} (h : dayCount y m d = .ok n)
    (h' : dayCount y' m' d' = .ok n) : y = y' ∧ m = m' ∧ d = d' := by
  have hsame := (dateOfDayCount_dayCount h).symm.trans (dateOfDayCount_dayCount h')
  simpa only [Except.ok.injEq, Date.mk.injEq] using hsame

end Chronology.Gregorian
