import Chronology.Pattern.DayRanking
import Chronology.Proofs.Calendar.Rank
import Chronology.Proofs.Normal

/-!
# Ranked weekdays in every year

`DayRanking.make` checks the order of the ranked days over the 400 years of one cycle only.
Since `dayByRank` repeats every 400 years, the check holds in every year: in each period, the
days that the ranks name come in list order once the ranks that the period does not reach are
left out. Each day is then named by one position only, so `lookup` finds the position that
`fill` used, and `fill` gives back the time at a position that `lookup` found.

## Main results

* `DayRanking.daysIn_ordered`: in every period the named days come in list order.
* `DayRanking.lookup_fill`: `lookup` finds a time that `fill` gave at its position.
* `DayRanking.fill_lookup`: `fill` at the position `lookup` found gives back the time.
-/

namespace Chronology

namespace DayRanking

/-! ### The days of a period -/

theorem daysIn_eq_ok {ranks : List DayRank} {y : Int} {m : Nat} {days : List Nat} :
    daysIn ranks y m = .ok days ↔
      List.Forall₂ (fun r d => Gregorian.dayByRank y m r.weekday r.rank = .ok d) ranks days := by
  simp only [daysIn, mapM_eq_ok, liftCalendar_eq_ok]

/-- The days of a period are those of the same period 400 years earlier. -/
theorem daysIn_emod {ranks : List DayRank} {y : Int} {m : Nat} {days : List Nat}
    (h : daysIn ranks y m = .ok days) : daysIn ranks (y % 400) m = .ok days :=
  daysIn_eq_ok.2 ((daysIn_eq_ok.1 h).imp fun _ _ => Gregorian.dayByRank_emod)

/-- The day at a position is the day that position's rank names. -/
theorem daysIn_getElem {ranks : List DayRank} {y : Int} {m : Nat} {days : List Nat}
    (h : daysIn ranks y m = .ok days) {j : Nat} (hj : j < ranks.length) :
    ∃ hj' : j < days.length,
      Gregorian.dayByRank y m ranks[j].weekday ranks[j].rank = .ok days[j] := by
  obtain ⟨hlen, hall⟩ := List.forall₂_iff_get.1 (daysIn_eq_ok.1 h)
  exact ⟨hlen ▸ hj, by simpa only [List.get_eq_getElem] using hall j hj (hlen ▸ hj)⟩

/-- A list that `StrictlyIncreasing` accepts increases strictly. -/
theorem pairwise_of_strictlyIncreasing :
    ∀ {l : List Nat}, StrictlyIncreasing l = true → l.Pairwise (· < ·)
  | [], _ => List.Pairwise.nil
  | [_], _ => List.pairwise_singleton _ _
  | a :: b :: rest, h => by
    simp only [StrictlyIncreasing, Bool.and_eq_true, decide_eq_true_eq] at h
    have ih := pairwise_of_strictlyIncreasing h.2
    refine List.Pairwise.cons (fun x hx => ?_) ih
    rcases List.mem_cons.1 hx with rfl | hx
    · exact h.1
    · exact Nat.lt_trans h.1 (List.rel_of_pairwise_cons ih hx)

/-- Each ranked weekday that `checkEach` accepts is within the bound of the period it was checked
for. -/
theorem checkEach_rank {month : Nat} :
    ∀ {seen ranks : List DayRank}, checkEach month seen ranks = .ok () →
      ∀ r ∈ ranks, r.rank ≠ 0 ∧ r.rank.natAbs ≤ Gregorian.maxRankIn month
  | _, [], _ => by simp
  | seen, r :: rest, h => by
    unfold checkEach at h
    dsimp only at h
    split at h
    · simp at h
    · obtain ⟨d, hday, hrest⟩ := bind_eq_ok.1 h
      obtain ⟨-, -, -, -, hr0, hr, -⟩ := Gregorian.dayByRank_eq_ok.1 (liftCalendar_eq_ok.1 hday)
      intro r' hr'
      rcases List.mem_cons.1 hr' with rfl | hr'
      · exact ⟨hr0, hr⟩
      · exact checkEach_rank hrest r' hr'

/-- Every rank of the pattern is within the bound of its period. -/
theorem rank_valid (p : DayRanking) :
    ∀ r ∈ p.ranks, r.rank ≠ 0 ∧ r.rank.natAbs ≤ Gregorian.maxRankIn (p.period.months.headD 0) :=
  checkEach_rank p.checked

/-- Where one rank names a day, all the ranks of the pattern name one. -/
theorem daysIn_of_dayByRank (p : DayRanking) {y : Int} {m : Nat}
    (hm : Gregorian.maxRankIn m = Gregorian.maxRankIn (p.period.months.headD 0))
    {w : Weekday} {r : Int} {d : Nat} (h : Gregorian.dayByRank y m w r = .ok d) :
    ∃ days, daysIn p.ranks y m = .ok days := by
  refine mapM_ok_of_forall fun r' hr' => ?_
  obtain ⟨hr0, hr⟩ := p.rank_valid r' hr'
  obtain ⟨d', hd'⟩ := Gregorian.dayByRank_of_dayByRank h hr0 (hm ▸ hr)
  exact ⟨d', liftCalendar_eq_ok.2 hd'⟩

/-- **In every period the named days come in list order**: the check over the 400 years of one cycle
holds in every year, since the days repeat every 400 years. The year is from zero on, since its
periods have day counts; with one rank there is one day, and nothing to order. -/
theorem daysIn_ordered (p : DayRanking) {y : Int} {m : Nat} (hm : m ∈ p.period.months)
    {days : List Nat} (h : daysIn p.ranks y m = .ok days) :
    (days.filter fun d => d ≠ 0).Pairwise (· < ·) := by
  have hforall := daysIn_eq_ok.1 h
  by_cases hmany : 1 < p.ranks.length
  · obtain ⟨r, rest, hcons⟩ := List.exists_cons_of_ne_nil p.ranks_ne_nil
    rw [hcons] at hforall
    obtain ⟨d, _, hd, -⟩ := List.forall₂_cons_left_iff.1 hforall
    have hy := Gregorian.dayByRank_year_nonneg hd
    have hmem : ((y % 400).toNat, m) ∈
        (List.range 400).flatMap fun year => p.period.months.map fun month => (year, month) := by
      simp only [List.mem_flatMap, List.mem_range, List.mem_map, Prod.mk.injEq]
      exact ⟨(y % 400).toNat, by omega, m, hm, rfl, rfl⟩
    have hcheck := forM_eq_ok.1 (p.ordered hmany) _ hmem
    have hdays : daysIn p.ranks ((y % 400).toNat : Int) m = .ok days := by
      rw [Int.toNat_of_nonneg (by omega)]
      exact daysIn_emod h
    simp only [hdays, except_ok_bind] at hcheck
    refine pairwise_of_strictlyIncreasing ?_
    split at hcheck
    · assumption
    · simp at hcheck
  · have hlen : days.length ≤ 1 := by
      rw [← hforall.length_eq]
      omega
    match days, hlen with
    | [], _ => exact List.Pairwise.nil
    | [d], _ => exact List.Pairwise.sublist (List.filter_sublist) (List.pairwise_singleton _ d)

/-- In days whose named ones come in order, a named day comes before every later named day. -/
theorem getElem_lt_of_ordered {days : List Nat}
    (hord : (days.filter fun d => d ≠ 0).Pairwise (· < ·)) {i j : Nat} (hij : i < j)
    (hj : j < days.length) (h0i : days[i] ≠ 0) (h0j : days[j] ≠ 0) : days[i] < days[j] := by
  have hlt := List.pairwise_iff_getElem.1 (List.pairwise_filter.1 hord) i j (by omega) hj hij
  simp only [ne_eq, decide_eq_true_eq] at hlt
  exact hlt h0i h0j

/-- In days whose named ones come in order, a named day is found at its own position. -/
theorem idxOf?_getElem_of_ordered {days : List Nat}
    (hord : (days.filter fun d => d ≠ 0).Pairwise (· < ·)) {j : Nat} (hj : j < days.length)
    (h0 : days[j] ≠ 0) : days.idxOf? days[j] = some j := by
  refine List.idxOf?_eq_some_iff.2 ⟨hj, rfl, fun i hi heq => ?_⟩
  have := getElem_lt_of_ordered hord hi hj (heq ▸ h0) h0
  omega

/-! ### Filling a position and finding it again -/

/-- Only the positions of the pattern can be filled. -/
theorem lt_length_of_fill {p : DayRanking} {j : Nat} {parts q : TimeParts}
    (h : p.fill j parts = .ok q) : j < p.ranks.length := by
  unfold fill at h
  cases hr : p.ranks[j]? with
  | none => simp [hr] at h
  | some r => exact (List.getElem?_eq_some_iff.1 hr).1

/-- Filling a position of a ranking of months: the day its rank names in the time's month. -/
theorem fill_eq_ok_of_month {p : DayRanking} (hper : p.period = .month) {j : Nat}
    {parts q : TimeParts} :
    p.fill j parts = .ok q ↔ ∃ r d, p.ranks[j]? = some r ∧
      Gregorian.dayByRank parts.year parts.month r.weekday r.rank = .ok d ∧ d ≠ 0 ∧
        q = { parts with day := d } := by
  unfold fill
  cases hr : p.ranks[j]? with
  | none => simp
  | some r =>
    simp only [periodOf, hper, bind_eq_ok, liftCalendar_eq_ok, Option.some.injEq]
    constructor
    · rintro ⟨d, hd, h⟩
      split at h
      · simp at h
      · exact ⟨r, d, rfl, hd, by assumption, by simpa [eq_comm] using h⟩
    · rintro ⟨r, d, rfl, hd, h0, rfl⟩
      exact ⟨d, hd, by simp [h0]⟩

/-- Filling a position of a ranking of years: the month and day of the day of the year its rank
names in the time's year. -/
theorem fill_eq_ok_of_year {p : DayRanking} (hper : p.period = .year) {j : Nat}
    {parts q : TimeParts} :
    p.fill j parts = .ok q ↔ ∃ r d m' d', p.ranks[j]? = some r ∧
      Gregorian.dayByRank parts.year 0 r.weekday r.rank = .ok d ∧ d ≠ 0 ∧
        Gregorian.monthAndDay d (Gregorian.isLeap parts.year) = .ok (m', d') ∧
          q = { parts with month := m', day := d' } := by
  unfold fill
  cases hr : p.ranks[j]? with
  | none => simp
  | some r =>
    simp only [periodOf, hper, bind_eq_ok, liftCalendar_eq_ok, Option.some.injEq]
    constructor
    · rintro ⟨d, hd, h⟩
      split at h
      · simp at h
      · obtain ⟨⟨m', d'⟩, hmd, h⟩ := bind_eq_ok.1 h
        exact ⟨r, d, m', d', rfl, hd, by assumption, liftCalendar_eq_ok.1 hmd,
          by simpa [eq_comm] using h⟩
    · rintro ⟨r, d, m', d', rfl, hd, h0, hmd, rfl⟩
      exact ⟨d, hd, by simp [h0, hmd, liftCalendar, Except.mapError]⟩

/-- Looking up a time in a ranking of months: its day among the days of its month. -/
theorem lookup_found_of_month {p : DayRanking} (hper : p.period = .month) {parts : TimeParts}
    {v : Int} {j : Nat} :
    p.lookup parts = .ok (v, .found j) ↔ ∃ days, daysIn p.ranks parts.year parts.month = .ok days ∧
      days.idxOf? parts.day = some j ∧ v = parts.day := by
  unfold lookup
  simp only [periodOf, hper, except_pure_eq, except_ok_bind, bind_eq_ok]
  constructor
  · rintro ⟨days, hdays, h⟩
    split at h <;> simp only [Except.ok.injEq, Prod.mk.injEq, reduceCtorEq, and_false] at h
    obtain ⟨rfl, h⟩ := h
    cases h
    exact ⟨days, hdays, by assumption, rfl⟩
  · rintro ⟨days, hdays, hidx, rfl⟩
    exact ⟨days, hdays, by simp [hidx]⟩

/-- Looking up a time in a ranking of years: its day of the year among the days of its year. -/
theorem lookup_found_of_year {p : DayRanking} (hper : p.period = .year) {parts : TimeParts}
    {v : Int} {j : Nat} :
    p.lookup parts = .ok (v, .found j) ↔ ∃ doy days,
      Gregorian.dayOfYear parts.year parts.month parts.day = .ok doy ∧
        daysIn p.ranks parts.year 0 = .ok days ∧ days.idxOf? doy = some j ∧ v = doy := by
  unfold lookup
  simp only [periodOf, hper, bind_eq_ok, liftCalendar_eq_ok]
  constructor
  · rintro ⟨doy, hdoy, days, hdays, h⟩
    split at h <;> simp only [except_pure_eq, Except.ok.injEq, Prod.mk.injEq, reduceCtorEq,
      and_false] at h
    obtain ⟨rfl, h⟩ := h
    cases h
    exact ⟨doy, days, hdoy, hdays, by assumption, rfl⟩
  · rintro ⟨doy, days, hdoy, hdays, hidx, rfl⟩
    exact ⟨doy, hdoy, days, hdays, by simp [hidx]⟩

/-- The periods checked for a ranking have the bound of ranks that `checkEach` checked. -/
theorem maxRankIn_of_mem_months {period : RankingPeriod} {m : Nat} (hm : m ∈ period.months) :
    Gregorian.maxRankIn m = Gregorian.maxRankIn (period.months.headD 0) := by
  cases period with
  | month =>
    simp only [RankingPeriod.months, List.mem_range'_1] at hm
    simp only [Gregorian.maxRankIn, RankingPeriod.months]
    rw [if_neg (by omega)]
    rfl
  | year =>
    simp only [RankingPeriod.months, List.mem_singleton] at hm
    simp [hm, RankingPeriod.months]

/-- The day a position names in a period is found at that position. -/
theorem idxOf?_of_dayByRank (p : DayRanking) {y : Int} {m : Nat} (hm : m ∈ p.period.months)
    {j : Nat} {r : DayRank} {d : Nat} (hr : p.ranks[j]? = some r)
    (hd : Gregorian.dayByRank y m r.weekday r.rank = .ok d) (h0 : d ≠ 0) :
    ∃ days, daysIn p.ranks y m = .ok days ∧ days.idxOf? d = some j := by
  obtain ⟨hj, rfl⟩ := List.getElem?_eq_some_iff.1 hr
  obtain ⟨days, hdays⟩ := p.daysIn_of_dayByRank (maxRankIn_of_mem_months hm) hd
  obtain ⟨hj', hdj⟩ := daysIn_getElem hdays hj
  have hdd : days[j] = d := Except.ok.inj (hdj.symm.trans hd)
  refine ⟨days, hdays, ?_⟩
  rw [← hdd]
  exact idxOf?_getElem_of_ordered (p.daysIn_ordered hm hdays) hj' (hdd ▸ h0)

/-- **Later positions name later days** of a period, where both name one. -/
theorem dayByRank_lt (p : DayRanking) {y : Int} {m : Nat} (hm : m ∈ p.period.months)
    {j k : Nat} {r r' : DayRank} {d d' : Nat} (hr : p.ranks[j]? = some r)
    (hd : Gregorian.dayByRank y m r.weekday r.rank = .ok d) (h0 : d ≠ 0)
    (hr' : p.ranks[k]? = some r') (hd' : Gregorian.dayByRank y m r'.weekday r'.rank = .ok d')
    (h0' : d' ≠ 0) (hjk : j < k) : d < d' := by
  obtain ⟨hj, rfl⟩ := List.getElem?_eq_some_iff.1 hr
  obtain ⟨hk, rfl⟩ := List.getElem?_eq_some_iff.1 hr'
  obtain ⟨days, hdays⟩ := p.daysIn_of_dayByRank (maxRankIn_of_mem_months hm) hd
  obtain ⟨hj', hdj⟩ := daysIn_getElem hdays hj
  obtain ⟨hk', hdk⟩ := daysIn_getElem hdays hk
  have hdd : days[j] = d := Except.ok.inj (hdj.symm.trans hd)
  have hdd' : days[k] = d' := Except.ok.inj (hdk.symm.trans hd')
  rw [← hdd, ← hdd']
  exact getElem_lt_of_ordered (p.daysIn_ordered hm hdays) hjk hk' (hdd ▸ h0) (hdd' ▸ h0')

/-- The day found at a position is the day that position names. -/
theorem dayByRank_of_idxOf? {p : DayRanking} {y : Int} {m : Nat} {days : List Nat}
    (hdays : daysIn p.ranks y m = .ok days) {v j : Nat} (hidx : days.idxOf? v = some j) :
    ∃ r, p.ranks[j]? = some r ∧ Gregorian.dayByRank y m r.weekday r.rank = .ok v := by
  obtain ⟨hj', hv, -⟩ := List.idxOf?_eq_some_iff.1 hidx
  have hj : j < p.ranks.length := (daysIn_eq_ok.1 hdays).length_eq ▸ hj'
  obtain ⟨_, hd⟩ := daysIn_getElem hdays hj
  exact ⟨p.ranks[j], List.getElem?_eq_getElem hj, hv ▸ hd⟩

/-- **`lookup` finds a time that `fill` gave at its position**: filling a position of a normal time
at the start of its period gives a normal time at the start of its day, in the same period, whose
day is found at that position. The day of the year falls on a day of one of its months. -/
theorem lookup_fill (p : DayRanking) {j : Nat} {parts q : TimeParts} (hparts : parts.Normal)
    (htr : parts.truncate p.period.unit = parts) (h : p.fill j parts = .ok q) :
    q.Normal ∧ q.truncate .day = q ∧ q.truncate p.period.unit = parts ∧
      ∃ v, p.lookup q = .ok (v, .found j) := by
  obtain ⟨year, month, day, hour, minute, second, nanos, offset⟩ := parts
  obtain ⟨hdate, hh, hmi, hs, hn, ho⟩ := hparts
  dsimp only at hdate hh hmi hs hn ho
  subst ho
  obtain ⟨hy, hm1, hm2, -, -⟩ := Gregorian.checkDate_eq_ok.1 hdate
  cases hper : p.period with
  | month =>
    rw [hper] at htr
    simp only [RankingPeriod.unit, TimeParts.truncate, TimeParts.mk.injEq] at htr
    obtain ⟨-, -, rfl, rfl, rfl, rfl, rfl, -⟩ := htr
    obtain ⟨r, d, hr, hd, h0, rfl⟩ := (fill_eq_ok_of_month hper).1 h
    have hm : month ∈ p.period.months := by
      simp only [hper, RankingPeriod.months, List.mem_range'_1]
      omega
    obtain ⟨days, hdays, hidx⟩ := idxOf?_of_dayByRank p hm hr hd h0
    obtain ⟨f, len, hspan, hle⟩ := Gregorian.dayByRank_le hd
    obtain ⟨-, hlen⟩ := Gregorian.periodSpan_eq_ok.1 hspan
    simp only [if_neg (show month ≠ 0 by omega), Gregorian.daysInMonth_eq_ok hm1 hm2,
      Except.ok.injEq] at hlen
    subst hlen
    refine ⟨⟨Gregorian.checkDate_eq_ok.2 ⟨hy, hm1, hm2, Nat.pos_of_ne_zero h0, hle⟩, by simp,
      by simp, by simp, hn, rfl⟩, rfl, by simp [RankingPeriod.unit, TimeParts.truncate], d,
      (lookup_found_of_month hper).2 ⟨days, hdays, hidx, rfl⟩⟩
  | year =>
    rw [hper] at htr
    simp only [RankingPeriod.unit, TimeParts.truncate, TimeParts.mk.injEq] at htr
    obtain ⟨-, rfl, rfl, rfl, rfl, rfl, rfl, -⟩ := htr
    obtain ⟨r, d, m', d', hr, hd, h0, hmd, rfl⟩ := (fill_eq_ok_of_year hper).1 h
    have hm : 0 ∈ p.period.months := by simp [hper, RankingPeriod.months]
    obtain ⟨days, hdays, hidx⟩ := idxOf?_of_dayByRank p hm hr hd h0
    obtain ⟨f, len, hspan, hle⟩ := Gregorian.dayByRank_le hd
    obtain ⟨-, hlen⟩ := Gregorian.periodSpan_eq_ok.1 hspan
    simp only [↓reduceIte, Except.ok.injEq] at hlen
    subst hlen
    obtain ⟨m'', d'', hmd', hm1', hm2', hd1', hd2', hsum⟩ :=
      Gregorian.monthAndDay_spec (Gregorian.isLeap year) d (Nat.pos_of_ne_zero h0) hle
    rw [hmd'] at hmd
    obtain ⟨rfl, rfl⟩ := Prod.mk.inj (Except.ok.inj hmd).symm
    have hvalid : Gregorian.checkDate year m' d' = .ok () :=
      Gregorian.checkDate_eq_ok.2 ⟨hy, hm1', hm2', hd1', hd2'⟩
    refine ⟨⟨hvalid, by simp, by simp, by simp, hn, rfl⟩, rfl,
      by simp [RankingPeriod.unit, TimeParts.truncate], d,
      (lookup_found_of_year hper).2 ⟨d, days, Gregorian.dayOfYear_eq_ok.2 ⟨hvalid, hsum.symm⟩,
        hdays, hidx, rfl⟩⟩

/-- **`fill` at the position `lookup` found gives back the time**, cut down to its day. -/
theorem fill_lookup (p : DayRanking) {q : TimeParts} (hq : q.Normal) {v : Int} {j : Nat}
    (h : p.lookup q = .ok (v, .found j)) :
    p.fill j (q.truncate p.period.unit) = .ok (q.truncate .day) := by
  obtain ⟨year, month, day, hour, minute, second, nanos, offset⟩ := q
  obtain ⟨hdate, -, -, -, -, ho⟩ := hq
  dsimp only at hdate ho
  subst ho
  obtain ⟨-, hm1, hm2, hd1, hd2⟩ := Gregorian.checkDate_eq_ok.1 hdate
  cases hper : p.period with
  | month =>
    obtain ⟨days, hdays, hidx, -⟩ := (lookup_found_of_month hper).1 h
    obtain ⟨r, hr, hd⟩ := dayByRank_of_idxOf? hdays hidx
    exact (fill_eq_ok_of_month hper).2 ⟨r, day, hr, hd, by omega, rfl⟩
  | year =>
    obtain ⟨doy, days, hdoy, hdays, hidx, -⟩ := (lookup_found_of_year hper).1 h
    obtain ⟨-, rfl⟩ := Gregorian.dayOfYear_eq_ok.1 hdoy
    obtain ⟨r, hr, hd⟩ := dayByRank_of_idxOf? hdays hidx
    have h0 : (Gregorian.daysBeforeMonth (Gregorian.isLeap year)).getD (month - 1) 0 + day ≠ 0 := by
      omega
    exact (fill_eq_ok_of_year hper).2 ⟨r, _, month, day, hr, hd, h0,
      Gregorian.monthAndDay_dayOfYear _ hm1 hm2 hd1 hd2, rfl⟩

/-- **A position of a ranking is filled in every period whose months start on counted days, or is
dead there**: a rank that the period does not reach names no day. A day of the year falls in one of
its months. -/
theorem fill_live_or_dead (p : DayRanking) {j : Nat} (hj : j < p.ranks.length) {parts : TimeParts}
    (hdate : Gregorian.checkDate parts.year parts.month parts.day = .ok ())
    (hcount : ∀ m, 1 ≤ m → m ≤ 12 → ∃ n, Gregorian.dayCount parts.year m 1 = .ok n) :
    (∃ q, p.fill j parts = .ok q) ∨ p.fill j parts = .error (.deadSubPeriod j) := by
  have hrank : p.ranks[j]? = some p.ranks[j] := List.getElem?_eq_getElem hj
  obtain ⟨hr0, hr⟩ := p.rank_valid _ (List.getElem_mem hj)
  obtain ⟨-, hm1, hm2, -, -⟩ := Gregorian.checkDate_eq_ok.1 hdate
  cases hper : p.period with
  | month =>
    have hmem : parts.month ∈ p.period.months := by
      rw [hper]
      simp only [RankingPeriod.months, List.mem_range'_1]
      omega
    obtain ⟨f, hf⟩ := hcount parts.month hm1 hm2
    have hspan := Gregorian.periodSpan_month hm1 hm2 hf
    obtain ⟨d, hd, -⟩ := Gregorian.dayByRank_of_periodSpan hspan p.ranks[j].weekday hr0
      (by rw [maxRankIn_of_mem_months hmem]; exact hr)
    by_cases h0 : d = 0
    · right
      simp [fill, hrank, periodOf, hper, hd, h0, liftCalendar, Except.mapError]
    · exact .inl ⟨_, (fill_eq_ok_of_month hper).2 ⟨_, d, hrank, hd, h0, rfl⟩⟩
  | year =>
    have hmem : 0 ∈ p.period.months := by simp [hper, RankingPeriod.months]
    obtain ⟨f, hf⟩ := hcount 1 (Nat.le_refl 1) (by omega)
    have hspan := Gregorian.periodSpan_year hf
    obtain ⟨d, hd, hlen⟩ := Gregorian.dayByRank_of_periodSpan hspan p.ranks[j].weekday hr0
      (by rw [maxRankIn_of_mem_months hmem]; exact hr)
    by_cases h0 : d = 0
    · right
      simp [fill, hrank, periodOf, hper, hd, h0, liftCalendar, Except.mapError]
    · obtain ⟨m', d', hmd, -⟩ :=
        Gregorian.monthAndDay_spec (Gregorian.isLeap parts.year) d (by omega) hlen
      exact .inl ⟨_, (fill_eq_ok_of_year hper).2 ⟨_, d, m', d', hrank, hd, h0, hmd, rfl⟩⟩

/-! ### Ranked days in every year -/

/-- A pattern names a day, or 0, at each of its positions in every period of its months that has
a span. -/
theorem daysIn_of_periodSpan (p : DayRanking) {y : Int} {m : Nat} (hm : m ∈ p.period.months)
    {f : Int} {len : Nat} (hs : Gregorian.periodSpan y m = .ok (f, len)) :
    ∃ days, daysIn p.ranks y m = .ok days := by
  obtain ⟨r, hr⟩ := List.exists_mem_of_ne_nil _ p.ranks_ne_nil
  obtain ⟨hr0, hrb⟩ := p.rank_valid r hr
  obtain ⟨d, hd, -⟩ := Gregorian.dayByRank_of_periodSpan hs r.weekday hr0
    (by rw [maxRankIn_of_mem_months hm]; exact hrb)
  exact p.daysIn_of_dayByRank (maxRankIn_of_mem_months hm) hd

/-- **The days that the ranks of a pattern name come in list order in every period**, not only in
the 400 years over which `make` checked them. In each month, or year, of its base whose first day is
counted, the named days increase strictly in list order once the ranks that the period does not
reach are left out, so no two positions name the same day. This rests on a rank naming the same day
400 years on, in every year from zero on whose period then has a span. -/
theorem daysIn_ordered_every_year (p : DayRanking) :
    (∀ (y : Int) (m : Nat), m ∈ p.period.months → (∃ s, Gregorian.periodSpan y m = .ok s) →
      ∃ days, daysIn p.ranks y m = .ok days ∧ (days.filter fun d => d ≠ 0).Pairwise (· < ·) ∧
        ∀ (i j : Nat) (hi : i < days.length) (hj : j < days.length),
          days[i] ≠ 0 → days[i] = days[j] → i = j) ∧
    ∀ (y : Int) (m : Nat) (w : Weekday) (r : Int), 0 ≤ y →
      (∃ s, Gregorian.periodSpan (y + 400) m = .ok s) →
        Gregorian.dayByRank (y + 400) m w r = Gregorian.dayByRank y m w r := by
  refine ⟨?_, ?_⟩
  · rintro y m hm ⟨⟨f, len⟩, hs⟩
    obtain ⟨days, hdays⟩ := p.daysIn_of_periodSpan hm hs
    have hord := p.daysIn_ordered hm hdays
    refine ⟨days, hdays, hord, fun i j hi hj h0 heq => ?_⟩
    rcases Nat.lt_trichotomy i j with hij | rfl | hji
    · exact absurd heq (Nat.ne_of_lt (getElem_lt_of_ordered hord hij hj h0 (heq ▸ h0)))
    · rfl
    · exact absurd heq.symm (Nat.ne_of_lt (getElem_lt_of_ordered hord hji hi (heq ▸ h0) h0))
  · rintro y m w r hy ⟨s, hs⟩
    exact Gregorian.dayByRank_add_400 hy hs w r

end DayRanking

end Chronology