import Chronology.Proofs.Calendar.Rank
import Mathlib.Order.Interval.Finset.Nat

/-!
# The day a rank names is the ranked occurrence of its weekday

`dayByRank` does not walk through its period. It takes the first day of the period that falls on
the weekday, from the weekday of the period's first day, and steps from there by whole weeks:
forwards for a positive rank, and for a negative rank backwards from the last such day, which it
finds in the same way. This module shows that the day it computes is the one counting gives: the
day on the weekday with exactly `rank` such days up to it, or for a negative rank `-rank` from it
to the end; and 0 exactly when the period has fewer such days than the rank asks for.

The days of a period that fall on a weekday are the days congruent to the first of them modulo 7
(`Gregorian.mem_occurrences`). Between two of them they are the terms of an arithmetic progression
of step 7, so their number is read off the ends (`Gregorian.card_filter_Icc_mod`).

## Main definitions

* `Gregorian.occurrences`: the days of a period that fall on a weekday, between two days.
* `Gregorian.IsRankedDay`, `Gregorian.NamesByCount`: the day of a period that a rank names, by
  counting, and 0 when there is none.

## Main results

* `Gregorian.rankedDay_spec`: what `rankedDay` computes, for any period of at least a week.
* `Gregorian.dayByRank_occurrence`: `dayByRank` names the ranked occurrence of the weekday in
  every month and every year whose first day is counted.
-/

namespace Chronology

namespace Weekday

theorem index_ofIndex (n : Nat) : (ofIndex n).index = n % 7 := by
  have h : n % 7 < 7 := Nat.mod_lt n (by decide)
  unfold ofIndex
  generalize n % 7 = k at h ⊢
  revert k
  decide

theorem index_injective : Function.Injective index :=
  Function.LeftInverse.injective ofIndex_index

/-- A weekday is that of an index exactly when it is the index's remainder modulo 7. -/
theorem ofIndex_eq_iff {n : Nat} {w : Weekday} : ofIndex n = w ↔ n % 7 = w.index := by
  rw [← index_ofIndex]
  exact index_injective.eq_iff.symm

/-- The weekday of a day count from zero on: day zero is a Saturday, the sixth day of the week. -/
theorem ofDayCount_eq_ok_iff {f : Int} (hf : 0 ≤ f) {w : Weekday} :
    ofDayCount f = .ok w ↔ (f + 5) % 7 = w.index := by
  simp only [ofDayCount, if_neg (Int.not_lt.2 hf), Except.ok.injEq, ofIndex_eq_iff]
  omega

end Weekday

namespace Gregorian

/-! ### Days of a period on a weekday -/

/-- The days from `lo` to `hi` of a period whose first day has the day count `start`, numbered
from 1, that fall on the weekday `w`. -/
def occurrences (start : Int) (w : Weekday) (lo hi : Nat) : Finset Nat :=
  (Finset.Icc lo hi).filter fun k => Weekday.ofDayCount (start + k - 1) = .ok w

/-- The first day of a period beginning on the weekday `fw` that falls on the weekday `w`. -/
def firstOn (fw w : Weekday) : Nat := 1 + (w.index + 7 - fw.index) % 7

theorem firstOn_pos (fw w : Weekday) : 1 ≤ firstOn fw w := by
  unfold firstOn
  omega

theorem firstOn_le (fw w : Weekday) : firstOn fw w ≤ 7 := by
  unfold firstOn
  omega

/-- The first day on `w` is the one `rankedDay` starts from. -/
theorem firstOn_eq (fw w : Weekday) :
    (firstOn fw w : Int) = 1 + ((w.index : Int) - fw.index) % 7 := by
  have := fw.index_lt
  have := w.index_lt
  unfold firstOn
  omega

/-- **A day of the period falls on `w` exactly when it is the first such day modulo 7.** -/
theorem mem_occurrences {f : Int} (hf : 0 ≤ f) {fw : Weekday}
    (hfw : Weekday.ofDayCount f = .ok fw) {w : Weekday} {lo hi k : Nat} (hlo : 1 ≤ lo) :
    k ∈ occurrences f w lo hi ↔ lo ≤ k ∧ k ≤ hi ∧ k % 7 = firstOn fw w % 7 := by
  have hfw' := (Weekday.ofDayCount_eq_ok_iff hf).1 hfw
  have := fw.index_lt
  have := w.index_lt
  simp only [occurrences, Finset.mem_filter, Finset.mem_Icc, and_assoc]
  refine and_congr_right fun hk => and_congr_right fun _ => ?_
  rw [Weekday.ofDayCount_eq_ok_iff (by omega)]
  unfold firstOn
  omega

/-- **The days from `lo` to `hi` congruent to `s` modulo 7** are the terms `s + 7 t` for `t` from
`i` to `j`, when `s + 7 i` is the first of them and `s + 7 j` the last. A day congruent to `s` at or
after `lo` is a term from the `i`-th on, and one at or before `hi` a term up to the `j`-th. -/
theorem card_filter_Icc_mod {s lo hi i j : Nat} (hlo : lo ≤ s + 7 * i) (hlo' : s + 7 * i < lo + 7)
    (hhi : s + 7 * j ≤ hi) (hhi' : hi < s + 7 * j + 7) :
    ((Finset.Icc lo hi).filter fun k => k % 7 = s % 7).card = j + 1 - i := by
  have himage : ((Finset.Icc lo hi).filter fun k => k % 7 = s % 7) =
      (Finset.Icc i j).image fun t => s + 7 * t := by
    ext k
    simp only [Finset.mem_filter, Finset.mem_Icc, Finset.mem_image]
    constructor
    · rintro ⟨⟨hk1, hk2⟩, hk⟩
      exact ⟨(k - s) / 7, ⟨by omega, by omega⟩, by omega⟩
    · rintro ⟨t, ⟨ht1, ht2⟩, rfl⟩
      omega
  have hinj : Function.Injective fun t : Nat => s + 7 * t := fun a b (h : s + 7 * a = s + 7 * b) =>
    by omega
  rw [himage, Finset.card_image_of_injective _ hinj, Nat.card_Icc]

/-- The days on `w` from `lo` to `hi`, counted by the first and the last of them. -/
theorem card_occurrences {f : Int} (hf : 0 ≤ f) {fw : Weekday}
    (hfw : Weekday.ofDayCount f = .ok fw) (w : Weekday) {lo hi i j : Nat} (hlo1 : 1 ≤ lo)
    (hlo : lo ≤ firstOn fw w + 7 * i) (hlo' : firstOn fw w + 7 * i < lo + 7)
    (hhi : firstOn fw w + 7 * j ≤ hi) (hhi' : hi < firstOn fw w + 7 * j + 7) :
    (occurrences f w lo hi).card = j + 1 - i := by
  have heq : occurrences f w lo hi =
      (Finset.Icc lo hi).filter fun k => k % 7 = firstOn fw w % 7 := by
    ext k
    rw [mem_occurrences hf hfw hlo1, Finset.mem_filter, Finset.mem_Icc, and_assoc]
  rw [heq, card_filter_Icc_mod hlo hlo' hhi hhi']

/-! ### The ranked day -/

/-- The day of a period of `len` days whose first day has the day count `start` that the rank `r`
names, by counting: it falls on `w`, with exactly `r` days on `w` up to it for a positive rank, and
exactly `-r` days on `w` from it to the end for a negative one. -/
def IsRankedDay (start : Int) (len : Nat) (w : Weekday) (r : Int) (d : Nat) : Prop :=
  1 ≤ d ∧ d ≤ len ∧ Weekday.ofDayCount (start + d - 1) = .ok w ∧
    (0 < r → (occurrences start w 1 d).card = r.natAbs) ∧
    (r < 0 → (occurrences start w d len).card = r.natAbs)

/-- What a rank names in a period of `len` days whose first day has the day count `start`, by
counting: 0 exactly when the period has fewer days on `w` than the rank asks for, and otherwise
the one day of the period that the rank names. -/
def NamesByCount (start : Int) (len : Nat) (w : Weekday) (r : Int) (d : Nat) : Prop :=
  (d = 0 ↔ (occurrences start w 1 len).card < r.natAbs) ∧
    (d ≠ 0 → IsRankedDay start len w r d ∧ ∀ d', IsRankedDay start len w r d' → d' = d)

section Ranked

variable {f : Int} {fw : Weekday} {len : Nat} {w : Weekday} {r : Int}

/-- The days of a period on `w`: one every week from the first. -/
theorem card_occurrences_period (hf : 0 ≤ f) (hfw : Weekday.ofDayCount f = .ok fw)
    (hlen : 7 ≤ len) : (occurrences f w 1 len).card = (len - firstOn fw w) / 7 + 1 := by
  have := firstOn_pos fw w
  have := firstOn_le fw w
  rw [card_occurrences hf hfw w (i := 0) (j := (len - firstOn fw w) / 7) (Nat.le_refl 1)
    (by omega) (by omega) (by omega) (by omega)]
  omega

/-- For a positive rank, `rankedDay` steps `r - 1` weeks on from the first day on `w`, and gives 0
past the end of the period. -/
theorem rankedDay_of_pos (hr : 0 < r) :
    rankedDay fw len w r =
      if firstOn fw w + 7 * (r.natAbs - 1) ≤ len then firstOn fw w + 7 * (r.natAbs - 1) else 0 := by
  have hfirst := firstOn_eq fw w
  unfold rankedDay
  dsimp only
  rw [if_pos hr]
  split_ifs <;> omega

/-- For a negative rank, `rankedDay` steps `-r - 1` weeks back from the last day on `w`, and gives 0
before the start of the period. Its division is that of a natural number, since the first day is in
the period. -/
theorem rankedDay_of_neg (hr : r < 0) (hlen : firstOn fw w ≤ len) :
    rankedDay fw len w r =
      if r.natAbs ≤ (len - firstOn fw w) / 7 + 1 then
        firstOn fw w + 7 * ((len - firstOn fw w) / 7 + 1 - r.natAbs)
      else 0 := by
  have hfirst := firstOn_eq fw w
  have hdiv : ((len : Int) - (1 + ((w.index : Int) - fw.index) % 7)) / 7 =
      (((len - firstOn fw w) / 7 : Nat) : Int) := by
    rw [← hfirst]
    omega
  have hr' : ¬ 0 < r := by omega
  unfold rankedDay
  simp only [if_neg hr', hdiv]
  split_ifs <;> omega

/-- A day on `w` with `r` days on `w` up to it is `r - 1` weeks after the first. -/
theorem eq_of_card_up (hf : 0 ≤ f) (hfw : Weekday.ofDayCount f = .ok fw) {d : Nat} (hd1 : 1 ≤ d)
    (hw : Weekday.ofDayCount (f + d - 1) = .ok w) :
    d = firstOn fw w + 7 * ((occurrences f w 1 d).card - 1) := by
  have hmod := ((mem_occurrences hf hfw (Nat.le_refl 1)).1
    (Finset.mem_filter.2 ⟨Finset.mem_Icc.2 ⟨hd1, Nat.le_refl d⟩, hw⟩)).2.2
  have := firstOn_pos fw w
  have := firstOn_le fw w
  rw [card_occurrences hf hfw w (i := 0) (j := (d - firstOn fw w) / 7) (Nat.le_refl 1)
    (by omega) (by omega) (by omega) (by omega)]
  omega

/-- A day on `w` with `r` days on `w` from it to the end is `r - 1` weeks before the last. -/
theorem eq_of_card_down (hf : 0 ≤ f) (hfw : Weekday.ofDayCount f = .ok fw) {d : Nat} (hd1 : 1 ≤ d)
    (hdlen : d ≤ len) (hw : Weekday.ofDayCount (f + d - 1) = .ok w) :
    d + 7 * ((occurrences f w d len).card - 1) = firstOn fw w + 7 * ((len - firstOn fw w) / 7) := by
  have hmod := ((mem_occurrences hf hfw hd1).1
    (Finset.mem_filter.2 ⟨Finset.mem_Icc.2 ⟨Nat.le_refl d, hdlen⟩, hw⟩)).2.2
  have := firstOn_pos fw w
  have := firstOn_le fw w
  rw [card_occurrences hf hfw w (i := (d - firstOn fw w) / 7) (j := (len - firstOn fw w) / 7) hd1
    (by omega) (by omega) (by omega) (by omega)]
  omega

/-- A day whole weeks after the first day on `w`, within the period, falls on `w`. -/
theorem ofDayCount_firstOn_add (hf : 0 ≤ f) (hfw : Weekday.ofDayCount f = .ok fw) {t : Nat}
    (ht : firstOn fw w + 7 * t ≤ len) :
    Weekday.ofDayCount (f + ((firstOn fw w + 7 * t : Nat) : Int) - 1) = .ok w := by
  have := firstOn_pos fw w
  have hmem : firstOn fw w + 7 * t ∈ occurrences f w 1 len :=
    (mem_occurrences hf hfw (Nat.le_refl 1)).2 ⟨by omega, ht, by omega⟩
  exact (Finset.mem_filter.1 hmem).2

/-- For a positive rank, `rankedDay` names by counting from the start of the period. The days on `w`
up to the day it names are the first `r` of the period. -/
theorem rankedDay_spec_of_pos (hf : 0 ≤ f) (hfw : Weekday.ofDayCount f = .ok fw)
    (hlen : 7 ≤ len) (hr : 0 < r) : NamesByCount f len w r (rankedDay fw len w r) := by
  have hn := card_occurrences_period (w := w) hf hfw hlen
  have := firstOn_pos fw w
  have := firstOn_le fw w
  rw [rankedDay_of_pos hr]
  split_ifs with hle
  · refine ⟨by omega, fun _ => ⟨⟨by omega, hle, ofDayCount_firstOn_add hf hfw hle, fun _ => ?_,
      by omega⟩, fun d ⟨hd1, _, hw, hcount, _⟩ => ?_⟩⟩
    · rw [card_occurrences hf hfw w (i := 0) (j := r.natAbs - 1) (Nat.le_refl 1) (by omega)
        (by omega) (by omega) (by omega)]
      omega
    · have := eq_of_card_up hf hfw hd1 hw
      rw [hcount hr] at this
      exact this
  · exact ⟨by omega, fun h => absurd rfl h⟩

/-- For a negative rank, `rankedDay` names by counting from the end of the period. The days on `w`
from the day it names to the end are the last `-r` of the period. -/
theorem rankedDay_spec_of_neg (hf : 0 ≤ f) (hfw : Weekday.ofDayCount f = .ok fw)
    (hlen : 7 ≤ len) (hr : r < 0) : NamesByCount f len w r (rankedDay fw len w r) := by
  have hn := card_occurrences_period (w := w) hf hfw hlen
  have := firstOn_pos fw w
  have := firstOn_le fw w
  rw [rankedDay_of_neg hr (by omega)]
  split_ifs with hle
  · have hday : firstOn fw w + 7 * ((len - firstOn fw w) / 7 + 1 - r.natAbs) ≤ len := by omega
    refine ⟨by omega, fun _ => ⟨⟨by omega, hday, ofDayCount_firstOn_add hf hfw hday,
      by omega, fun _ => ?_⟩, fun d ⟨hd1, hdlen, hw, _, hcount⟩ => ?_⟩⟩
    · rw [card_occurrences hf hfw w (i := (len - firstOn fw w) / 7 + 1 - r.natAbs)
        (j := (len - firstOn fw w) / 7) (by omega) (by omega) (by omega) (by omega) (by omega)]
      omega
    · have := eq_of_card_down hf hfw hd1 hdlen hw
      rw [hcount hr] at this
      omega
  · exact ⟨by omega, fun h => absurd rfl h⟩

/-- **What `rankedDay` computes.** In a period of at least a week, the day is 0 exactly when the
period has fewer days on `w` than the rank asks for; otherwise it is the one day that the rank
names by counting. -/
theorem rankedDay_spec (hf : 0 ≤ f) (hfw : Weekday.ofDayCount f = .ok fw) (hlen : 7 ≤ len)
    (hr0 : r ≠ 0) : NamesByCount f len w r (rankedDay fw len w r) := by
  rcases Int.lt_or_lt_of_ne hr0 with hneg | hpos
  · exact rankedDay_spec_of_neg hf hfw hlen hneg
  · exact rankedDay_spec_of_pos hf hfw hlen hpos

end Ranked

/-! ### Ranks of a month or a year -/

/-- No month is shorter than 28 days. -/
theorem le_monthLength (leap : Bool) : ∀ m, 1 ≤ m → m ≤ 12 → 28 ≤ monthLength leap m := by
  cases leap <;> decide

/-- A month or a year whose first day is counted has a span, of at least a week. -/
theorem periodSpan_of_dayCount {y : Int} {m : Nat} (hm : m ≤ 12) {f : Int}
    (hf : dayCount y (if m = 0 then 1 else m) 1 = .ok f) :
    ∃ len, periodSpan y m = .ok (f, len) ∧ 7 ≤ len := by
  by_cases hm0 : m = 0
  · subst hm0
    refine ⟨daysInYear y, periodSpan_year (by simpa using hf), ?_⟩
    rw [daysInYear_eq]
    split <;> omega
  · rw [if_neg hm0] at hf
    exact ⟨_, periodSpan_month (by omega) hm hf, by have := le_monthLength (isLeap y) m; omega⟩

/-- **A rank names its occurrence of the weekday.** In a month, or a year (month 0), whose first
day is counted, a rank within the bound of the period names a day: 0 exactly when the period has
fewer days on the weekday than the rank asks for, and otherwise the one day on the weekday with
exactly `rank` such days up to it (a positive rank) or `-rank` such days from it to the end (a
negative rank). -/
theorem dayByRank_occurrence {y : Int} {m : Nat} (hm : m ≤ 12) {f : Int}
    (hf : dayCount y (if m = 0 then 1 else m) 1 = .ok f) (w : Weekday) {r : Int} (hr0 : r ≠ 0)
    (hr : r.natAbs ≤ maxRankIn m) :
    ∃ len d, periodSpan y m = .ok (f, len) ∧ dayByRank y m w r = .ok d ∧
      NamesByCount f len w r d := by
  obtain ⟨len, hspan, hlen⟩ := periodSpan_of_dayCount hm hf
  have hf0 : 0 ≤ f := dayCount_nonneg hf
  obtain ⟨d, hd, -⟩ := dayByRank_of_periodSpan hspan w hr0 hr
  obtain ⟨f', len', fw, hspan', -, -, hfw, rfl⟩ := dayByRank_eq_ok.1 hd
  rw [hspan, Except.ok.injEq, Prod.mk.injEq] at hspan'
  obtain ⟨rfl, rfl⟩ := hspan'
  exact ⟨len, _, hspan, hd, rankedDay_spec hf0 hfw hlen hr0⟩

/-- The last Friday of February 2010, a month of exactly four Fridays, is the 26th. -/
theorem lastFriday_of_february_2010 :
    (2 : Nat) ≤ 12 ∧ dayCount 2010 2 1 = .ok 734169 ∧ (-1 : Int) ≠ 0 ∧
      (-1 : Int).natAbs ≤ maxRankIn 2 ∧
      ∃ len d, periodSpan 2010 2 = .ok (734169, len) ∧ dayByRank 2010 2 .friday (-1) = .ok d ∧
        NamesByCount 734169 len .friday (-1) d := by
  have hf : dayCount 2010 (if 2 = 0 then 1 else 2) 1 = .ok 734169 := by decide
  exact ⟨by decide, hf, by decide, by decide,
    dayByRank_occurrence (by decide) hf .friday (by decide) (by decide)⟩

end Gregorian

end Chronology
