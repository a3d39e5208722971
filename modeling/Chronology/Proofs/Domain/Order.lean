import Chronology.Proofs.Order
import Chronology.Proofs.Domain.PackUnpack

/-!
# Indices are in the order of their times

Within one domain a later index stands for a later time. A layout numbers its times base period by
base period, and within a base period position by position, so the order has two sources: later
base periods start later (raw indices count forward, the cycle keeps their order, and the first
instants of raw indices follow the order of the indices), and later positions of one base period
are later sub-periods of it. For fixed ranks the second is the ranks being sorted; for ranked
weekdays it is the check that their days come in list order, which holds in every year.

Every time of a base period lies within it, so a time of an earlier base period comes before
every time of a later one: cutting both down to the base unit keeps their order and gives the
starts of the two periods.

## Main results

* `SubPattern.fill_stamp_lt`: later positions of a base period are later times.
* `Layout.decompose_stamp_lt`: later indices of a layout are later times.
* `TimeDomain.compare_unpack`: indices of a domain compare as their times do.
-/

namespace Chronology

open TimeParts

/-! ### Positions within a base period -/

namespace FixedRanks

/-- Later positions of fixed ranks are later times of the same base period: the ranks are sorted,
and a rank sets one field, or the time of day. A later day of the year falls in a later month, or
later in one month. -/
theorem fill_stamp_lt (p : FixedRanks) {j k : Nat} {parts q q' : TimeParts}
    (h : p.fill j parts = .ok q) (h' : p.fill k parts = .ok q') (hjk : j < k) :
    q.stamp < q'.stamp := by
  have hk := lt_length_of_fill h'
  have hrank : p.ranks[j] < p.ranks[k] :=
    List.pairwise_iff_getElem.1 p.sorted j k (by omega) hk hjk
  have hlow : p.pairing.lowest ≤ p.ranks[j] := (p.inRange _ (List.getElem_mem _)).1
  cases hpair : p.pairing with
  | monthsOfYear =>
    obtain ⟨rank, hr, rfl⟩ := (fill_eq_ok_of_months hpair).1 h
    obtain ⟨rank', hr', rfl⟩ := (fill_eq_ok_of_months hpair).1 h'
    rw [List.getElem?_eq_getElem (by omega), Option.some.injEq] at hr
    rw [List.getElem?_eq_getElem hk, Option.some.injEq] at hr'
    simp only [hpair, Pairing.lowest] at hlow
    simp only [stamp]
    omega
  | daysOfMonth =>
    obtain ⟨rank, -, hr, -, -, rfl⟩ := (fill_eq_ok_of_days hpair).1 h
    obtain ⟨rank', -, hr', -, -, rfl⟩ := (fill_eq_ok_of_days hpair).1 h'
    rw [List.getElem?_eq_getElem (by omega), Option.some.injEq] at hr
    rw [List.getElem?_eq_getElem hk, Option.some.injEq] at hr'
    simp only [hpair, Pairing.lowest] at hlow
    simp only [stamp]
    omega
  | secondsOfDay =>
    obtain ⟨rank, t, hr, ht, rfl⟩ := (fill_eq_ok_of_seconds hpair).1 h
    obtain ⟨rank', t', hr', ht', rfl⟩ := (fill_eq_ok_of_seconds hpair).1 h'
    rw [List.getElem?_eq_getElem (by omega), Option.some.injEq] at hr
    rw [List.getElem?_eq_getElem hk, Option.some.injEq] at hr'
    obtain ⟨-, -, -, hsec⟩ := ClockTime.ofSeconds_spec ht
    obtain ⟨-, -, -, hsec'⟩ := ClockTime.ofSeconds_spec ht'
    simp only [ClockTime.seconds] at hsec hsec'
    simp only [stamp]
    omega

end FixedRanks

namespace DayRanking

/-- Later positions of ranked weekdays are later days of the same period. -/
theorem fill_stamp_lt (p : DayRanking) {j k : Nat} {parts q q' : TimeParts}
    (hparts : parts.Normal) (h : p.fill j parts = .ok q) (h' : p.fill k parts = .ok q')
    (hjk : j < k) : q.stamp < q'.stamp := by
  obtain ⟨-, hm1, hm2, -, -⟩ := Gregorian.checkDate_eq_ok.1 hparts.date
  cases hper : p.period with
  | month =>
    obtain ⟨r, d, hr, hd, h0, rfl⟩ := (fill_eq_ok_of_month hper).1 h
    obtain ⟨r', d', hr', hd', h0', rfl⟩ := (fill_eq_ok_of_month hper).1 h'
    have hm : parts.month ∈ p.period.months := by
      simp only [hper, RankingPeriod.months, List.mem_range'_1]
      omega
    have := p.dayByRank_lt hm hr hd h0 hr' hd' h0' hjk
    simp only [stamp]
    omega
  | year =>
    obtain ⟨r, d, m, dd, hr, hd, h0, hmd, rfl⟩ := (fill_eq_ok_of_year hper).1 h
    obtain ⟨r', d', m', dd', hr', hd', h0', hmd', rfl⟩ := (fill_eq_ok_of_year hper).1 h'
    have hm : 0 ∈ p.period.months := by simp [hper, RankingPeriod.months]
    have hlt := p.dayByRank_lt hm hr hd h0 hr' hd' h0' hjk
    have hlex := Gregorian.monthAndDay_lt hmd hmd' hlt
    obtain ⟨-, hmm, -, hdd, -⟩ := Gregorian.monthAndDay_eq_ok hmd
    have := Gregorian.monthLength_le (Gregorian.isLeap parts.year) m hmm
    simp only [stamp]
    omega

end DayRanking

namespace SubPattern

/-- **Later positions of a base period are later times.** -/
theorem fill_stamp_lt (s : SubPattern) {j k : Nat} {parts q q' : TimeParts}
    (hparts : parts.Normal) (h : s.fill j parts = .ok q) (h' : s.fill k parts = .ok q')
    (hjk : j < k) : q.stamp < q'.stamp := by
  cases s with
  | fixed p => exact p.fill_stamp_lt (fill_fixed p j parts ▸ h) (fill_fixed p k parts ▸ h') hjk
  | dayRanking p =>
    exact p.fill_stamp_lt hparts (fill_dayRanking p j parts ▸ h) (fill_dayRanking p k parts ▸ h')
      hjk

end SubPattern

/-! ### Indices of a layout -/

namespace Layout

/-- **Later indices of a layout are later times.** Across base periods the earlier one starts first
and each time stays in its own; within one base period the positions are in order, and without a
pattern each base period has one position. -/
theorem decompose_stamp_lt {l : Layout} (hsub : ∀ s ∈ l.sub, s.baseUnit = l.base) {i j : Nat}
    {p q : TimeParts} (hi : l.decompose i = .ok p) (hj : l.decompose j = .ok q) (hij : i < j)
    (hmax : (j : Int) ≤ Word.max) : p.stamp < q.stamp := by
  rw [decompose_eq] at hi hj
  obtain ⟨rawi, hrawi, hi⟩ := bind_eq_ok.1 hi
  obtain ⟨partsi, hpartsi, hi⟩ := bind_eq_ok.1 hi
  obtain ⟨rawj, hrawj, hj⟩ := bind_eq_ok.1 hj
  obtain ⟨partsj, hpartsj, hj⟩ := bind_eq_ok.1 hj
  have hsize := l.size_pos
  have hdiv : i / l.size ≤ j / l.size := Nat.div_le_div_right (Nat.le_of_lt hij)
  rcases Nat.lt_or_eq_of_le hdiv with hbase | hbase
  · have hraw := expandBase_lt hrawi hrawj (by omega)
    have hdivj := Nat.div_le_self j l.size
    have hboundi := expandBase_bounds hrawi (Int.natCast_nonneg _) (by omega)
    have hboundj := expandBase_bounds hrawj (Int.natCast_nonneg _) (by omega)
    have hstarts := stamp_lt_of_partsOfRaw (n := rawi.toNat) (by omega) (by omega) hpartsi hpartsj
    obtain ⟨pi, hpi, hnpi, htrpi, -⟩ := partsOfRaw_spec rawi.toNat l.base
    obtain ⟨pj, hpj, hnpj, htrpj, -⟩ := partsOfRaw_spec rawj.toNat l.base
    rw [hpartsi, Except.ok.injEq] at hpi
    rw [hpartsj, Except.ok.injEq] at hpj
    subst hpi hpj
    obtain ⟨hp, htp⟩ := fillSub_spec hsub hnpi htrpi hi
    obtain ⟨hq, htq⟩ := fillSub_spec hsub hnpj htrpj hj
    refine Int.not_le.1 fun hle => ?_
    have := stamp_truncate_le hq hp hle l.base
    rw [htp, htq] at this
    omega
  · rw [hbase, hrawj, Except.ok.injEq] at hrawi
    subst hrawi
    rw [hpartsj, Except.ok.injEq] at hpartsi
    subst hpartsi
    have hpos : i % l.size < j % l.size := by
      have := Nat.div_add_mod i l.size
      have := Nat.div_add_mod j l.size
      rw [hbase] at *
      omega
    cases hs : l.sub with
    | none =>
      rw [size_of_sub_none hs] at hpos
      omega
    | some s =>
      rw [fillSub_of_sub_some hs, liftPat_eq_ok] at hi hj
      obtain ⟨pj, hpj, hnpj, -, -⟩ := partsOfRaw_spec rawj.toNat l.base
      rw [hpartsj, Except.ok.injEq] at hpj
      subst hpj
      exact s.fill_stamp_lt hnpj hi hj hpos

/-- The indices of a layout compare as their times do. -/
theorem compare_decompose {l : Layout} (hsub : ∀ s ∈ l.sub, s.baseUnit = l.base) {i j : Nat}
    {p q : TimeParts} (hi : l.decompose i = .ok p) (hj : l.decompose j = .ok q)
    (himax : (i : Int) ≤ Word.max) (hjmax : (j : Int) ≤ Word.max) :
    compare (i : Int) j = p.compareTime q := by
  rw [compareTime_eq (decompose_normal hsub hi) (decompose_normal hsub hj)]
  rcases Nat.lt_trichotomy i j with hij | rfl | hij
  · rw [Int.compare_eq_lt.2 (by omega),
      Int.compare_eq_lt.2 (decompose_stamp_lt hsub hi hj hij hjmax)]
  · rw [hi, Except.ok.injEq] at hj
    subst hj
    rw [Int.compare_eq_eq.2 rfl, Int.compare_eq_eq.2 rfl]
  · rw [Int.compare_eq_gt.2 (by omega),
      Int.compare_eq_gt.2 (decompose_stamp_lt hsub hj hi hij himax)]

end Layout

/-! ### Indices of a domain -/

namespace TimeDomain

/-- **Indices of a domain compare as their times do.** -/
theorem compare_unpack {d : TimeDomain} {i j : Int} {p q : TimeParts} (hi : d.unpack i = .ok p)
    (hj : d.unpack j = .ok q) : compare i j = p.compareTime q := by
  obtain ⟨⟨hi0, himax⟩, hpi⟩ := unpack_eq_ok.1 hi
  obtain ⟨⟨hj0, hjmax⟩, hpj⟩ := unpack_eq_ok.1 hj
  have hmax := d.maxIndex_le
  have h := d.layout.compare_decompose d.sub_base hpi hpj (by omega) (by omega)
  rwa [Int.toNat_of_nonneg hi0, Int.toNat_of_nonneg hj0] at h

end TimeDomain

end Chronology
