import Chronology.Proofs.Pattern.SubPattern
import Mathlib.Data.List.GetD

/-!
# The position encoding of a sub-period pattern

A sub-period pattern numbers the sub-periods of base period `t` as `t * size + k`, where position
`k` admits one value in each base period: the `k`-th fixed rank, or the day that the `k`-th ranked
weekday names in the period, when the period reaches that rank. `SubPattern.locate` takes a time to
such a number. This module states what the number is in terms of the admitted values alone, for
every time whose lookup succeeds, whatever its finer fields hold and whatever the adjustment:

* a time whose value some position admits is numbered by that position, for every adjustment;
* a time whose value no position admits is refused without adjustment, moves up to the first
  position admitting a larger value (`size` when none does, the first position of the next base
  period), and moves down to the last position admitting a smaller one (`-1` when none does, the
  last position of the base period before);
* the scaled base period is checked against the word before anything else, and the number itself
  after.

The lookups that produce these positions differ by kind. Fixed ranks are sorted, so the ranks below
a value are the first ones and their count is the insertion point. Ranked weekdays keep the day of
each position in a list, with 0 for a rank the period does not reach, and scan it for the first day
above the value and the last named day below it. The scan for the value itself does not skip the
0 entries, so a requested day 0, which only a time with an unchecked day can ask for, is found at
a dead position: the statements here ask for a requested value other than 0 from a ranking.

## Main definitions

* `SubPattern.Requests`, `SubPattern.Admits`: the value a time asks for, and the value a position
  admits in the time's base period.
* `SubPattern.FirstAbove`, `SubPattern.LastBelow`: the positions an adjustment moves to.

## Main results

* `SubPattern.locate_position_encoding`: the number `locate` gives, for every adjustment.
-/

namespace Chronology

namespace FixedRanks

/-- Among sorted ranks, those below a value are the first ones: the rank at a position is below the
value exactly when the position is below the number of such ranks. Every rank from the first that is
not below the value on is at least the value. -/
theorem getElem_lt_iff {ranks : List Int} (hsorted : ranks.Pairwise (· < ·)) (v : Int) {k : Nat}
    (hk : k < ranks.length) :
    ranks[k] < v ↔ k < (ranks.filter fun r => decide (r < v)).length := by
  induction ranks generalizing k with
  | nil => simp at hk
  | cons a rest ih =>
    have hrest := List.Pairwise.of_cons hsorted
    by_cases ha : a < v
    · rw [List.filter_cons_of_pos (by simpa using ha)]
      cases k with
      | zero => simpa using ha
      | succ k =>
        simp only [List.getElem_cons_succ, List.length_cons, Nat.add_lt_add_iff_right]
        exact ih hrest (by simpa using hk)
    · have hnone : rest.filter (fun r => decide (r < v)) = [] := by
        refine List.filter_eq_nil_iff.2 fun r hr => ?_
        have := List.rel_of_pairwise_cons hsorted hr
        simp only [decide_eq_true_eq]
        omega
      rw [List.filter_cons_of_neg (by simpa using ha), hnone]
      cases k with
      | zero => simpa using ha
      | succ k =>
        have := List.rel_of_pairwise_cons hsorted (List.getElem_mem (by simpa using hk))
        simp only [List.getElem_cons_succ, List.length_nil]
        omega

end FixedRanks

namespace DayRanking

/-- The last index of a list whose element passes a test: it passes, and no later one does. -/
theorem lastIndexWhere_spec (test : Nat → Bool) (xs : List Nat) :
    match lastIndexWhere test xs with
    | some j => j < xs.length ∧ test (xs.getD j 0) = true ∧
        ∀ i, j < i → i < xs.length → test (xs.getD i 0) = false
    | none => ∀ i, i < xs.length → test (xs.getD i 0) = false := by
  have hsorted : ((List.range xs.length).filter fun i => test (xs.getD i 0)).Pairwise (· < ·) :=
    List.pairwise_lt_range.filter _
  unfold lastIndexWhere
  split
  · rename_i j hj
    obtain ⟨ys, hys⟩ := List.getLast?_eq_some_iff.1 hj
    have hmem : j ∈ (List.range xs.length).filter fun i => test (xs.getD i 0) :=
      List.mem_of_getLast? hj
    simp only [List.mem_filter, List.mem_range] at hmem
    refine ⟨hmem.1, hmem.2, fun i hji hi => ?_⟩
    by_contra hpass
    have hi : i ∈ (List.range xs.length).filter fun i => test (xs.getD i 0) :=
      List.mem_filter.2 ⟨List.mem_range.2 hi, by simpa using hpass⟩
    rw [hys] at hi hsorted
    rcases List.mem_append.1 hi with hi | hi
    · have := (List.pairwise_append.1 hsorted).2.2 i hi j List.mem_cons_self
      omega
    · simp at hi
      omega
  · rename_i hnone
    intro i hi
    have hnil := List.getLast?_eq_none_iff.1 hnone
    have := List.filter_eq_nil_iff.1 hnil i (List.mem_range.2 hi)
    simpa using this

/-- The day a time asks for in a ranking: its day of the month, or its day of the year. -/
def RequestedDay (p : DayRanking) (q : TimeParts) (n : Nat) : Prop :=
  match p.period with
  | .month => n = q.day
  | .year => Gregorian.dayOfYear q.year q.month q.day = .ok n

/-- What a successful lookup in a ranking computed: the requested day, the days of the ranks in
the time's period, and the position of the day among them or the two scans around it. -/
theorem lookup_eq_ok {p : DayRanking} {q : TimeParts} {v : Int} {l : Lookup} :
    p.lookup q = .ok (v, l) ↔ ∃ n days, p.RequestedDay q n ∧ v = n ∧
      daysIn p.ranks (p.periodOf q).1 (p.periodOf q).2 = .ok days ∧
      l = match days.idxOf? n with
        | some i => .found i
        | none => .missing ((days.findIdx? fun d => decide (n < d)).getD days.length)
            (lastIndexWhere (fun d => d != 0 && decide (d < n)) days) := by
  unfold lookup RequestedDay
  cases hper : p.period with
  | month =>
    simp only [periodOf, hper, except_pure_eq, except_ok_bind, bind_eq_ok, Except.ok.injEq,
      Prod.mk.injEq]
    constructor
    · rintro ⟨days, hdays, rfl, rfl⟩
      exact ⟨_, days, rfl, rfl, hdays, rfl⟩
    · rintro ⟨n, days, rfl, rfl, hdays, rfl⟩
      exact ⟨days, hdays, rfl, rfl⟩
  | year =>
    simp only [periodOf, hper, bind_eq_ok, liftCalendar_eq_ok, except_pure_eq, Except.ok.injEq,
      Prod.mk.injEq]
    constructor
    · rintro ⟨n, hn, days, hdays, rfl, rfl⟩
      exact ⟨n, days, hn, rfl, hdays, rfl⟩
    · rintro ⟨n, days, hn, rfl, hdays, rfl⟩
      exact ⟨n, hn, days, hdays, rfl, rfl⟩

end DayRanking

namespace SubPattern

/-! ### What a time asks for and what the positions admit -/

/-- The value a time asks for in the unit of a pattern's positions: its month, its day or its
second of the day for fixed sub-periods, its day of the month or of the year for ranked
weekdays. -/
def Requests : SubPattern → TimeParts → Int → Prop
  | fixed p, q, v => v = p.requested q
  | dayRanking p, q, v => ∃ n, p.RequestedDay q n ∧ v = n

/-- The value position `k` admits in the base period of a time: the `k`-th fixed rank, or the day
that the `k`-th ranked weekday names in the time's month or year when the period reaches that
rank. -/
def Admits : SubPattern → TimeParts → Nat → Int → Prop
  | fixed p, _, k, x => p.ranks[k]? = some x
  | dayRanking p, q, k, x => ∃ r d, p.ranks[k]? = some r ∧
      Gregorian.dayByRank (p.periodOf q).1 (p.periodOf q).2 r.weekday r.rank = .ok d ∧ d ≠ 0 ∧
        x = d

/-- Position `j` is the first that admits a value above `v`, or `size` when none does. -/
def FirstAbove (s : SubPattern) (q : TimeParts) (v : Int) (j : Nat) : Prop :=
  j ≤ s.size ∧ (∀ k x, k < j → s.Admits q k x → x ≤ v) ∧
    (j < s.size → ∃ x, s.Admits q j x ∧ v < x)

/-- Position `j` is the last that admits a value below `v`, or `-1` when none does. -/
def LastBelow (s : SubPattern) (q : TimeParts) (v : Int) (j : Int) : Prop :=
  -1 ≤ j ∧ j < s.size ∧ (∀ (k : Nat) x, j < k → k < s.size → s.Admits q k x → v ≤ x) ∧
    (0 ≤ j → ∃ x, s.Admits q j.toNat x ∧ x < v)

/-- The position a missing value moves down to: the one before it, or `-1`, the last position
of the base period before. -/
def positionBelow : Option Nat → Int
  | some i => i
  | none => -1

/-- Only the positions of the pattern admit values. -/
theorem lt_size_of_admits {s : SubPattern} {q : TimeParts} {k : Nat} {x : Int}
    (h : s.Admits q k x) : k < s.size := by
  cases s with
  | fixed p => exact (List.getElem?_eq_some_iff.1 h).1
  | dayRanking p =>
    obtain ⟨r, d, hr, -⟩ := h
    exact (List.getElem?_eq_some_iff.1 hr).1

end SubPattern

namespace FixedRanks

open SubPattern

/-- A value found among fixed ranks is the rank at its position. -/
theorem admits_of_lookup_found (p : FixedRanks) {q : TimeParts} {v : Int} {j : Nat}
    (h : p.lookup q = (v, .found j)) : (fixed p).Admits q j v := by
  obtain ⟨rfl, hl⟩ := Prod.mk.inj h
  obtain ⟨hj, hget, -⟩ := List.idxOf?_eq_some_iff.1 (locateAmong_eq_found.1 hl)
  show p.ranks[j]? = some (p.requested q)
  rw [← hget]
  exact List.getElem?_eq_getElem hj

/-- A value missing among fixed ranks moves up to the first rank above it and down to the last rank
below it: the ranks below a value are the first ones, since the ranks are sorted. -/
theorem lookup_missing (p : FixedRanks) {q : TimeParts} {v : Int} {next : Nat}
    {prev : Option Nat} (h : p.lookup q = (v, .missing next prev)) :
    (∀ k, ¬ (fixed p).Admits q k v) ∧ (fixed p).FirstAbove q v next ∧
      (fixed p).LastBelow q v (positionBelow prev) := by
  obtain ⟨rfl, hl⟩ := Prod.mk.inj h
  unfold locateAmong at hl
  split at hl
  · cases hl
  · rename_i hnone
    simp only [Lookup.missing.injEq] at hl
    obtain ⟨rfl, rfl⟩ := hl
    have hnotmem := List.idxOf?_eq_none_iff.1 hnone
    have hle : (p.ranks.filter fun r => decide (r < p.requested q)).length ≤ p.ranks.length :=
      List.length_filter_le _ _
    have hbelow : ∀ k (hk : k < p.ranks.length), p.ranks[k] < p.requested q ↔
        k < (p.ranks.filter fun r => decide (r < p.requested q)).length :=
      fun _ hk => getElem_lt_iff p.sorted _ hk
    have hprev : positionBelow (if (p.ranks.filter fun r => decide (r < p.requested q)).length = 0
        then none else some ((p.ranks.filter fun r => decide (r < p.requested q)).length - 1)) =
        ((p.ranks.filter fun r => decide (r < p.requested q)).length : Int) - 1 := by
      split <;> simp only [positionBelow] <;> omega
    rw [hprev]
    refine ⟨fun k hk => hnotmem (List.mem_of_getElem? hk), ⟨hle, fun k x hk hx => ?_, fun hn => ?_⟩,
      ⟨by omega, by simp only [size]; omega, fun k x hjk hk hx => ?_, fun hj => ?_⟩⟩
    · obtain ⟨hk', rfl⟩ := List.getElem?_eq_some_iff.1 hx
      exact Int.le_of_lt ((hbelow k hk').2 hk)
    · have hget : p.ranks[(p.ranks.filter fun r => decide (r < p.requested q)).length] ≠
          p.requested q := fun heq => hnotmem (heq ▸ List.getElem_mem hn)
      have := (hbelow _ hn).not.2 (Nat.lt_irrefl _)
      exact ⟨_, List.getElem?_eq_getElem hn, by omega⟩
    · obtain ⟨hk', rfl⟩ := List.getElem?_eq_some_iff.1 hx
      have := (hbelow k hk').not.2 (by omega)
      omega
    · have hk : ((p.ranks.filter fun r => decide (r < p.requested q)).length - 1 : Int).toNat <
          p.ranks.length := by omega
      exact ⟨_, List.getElem?_eq_getElem hk, (hbelow _ hk).2 (by omega)⟩

/-- **Filling a position of fixed ranks writes its rank**, in the same base period; only a day past
the end of the time's month is dead instead. -/
theorem fill_of_admits (p : FixedRanks) {q : TimeParts}
    (hmonth : (fixed p).baseUnit = .month → 1 ≤ q.month ∧ q.month ≤ 12) {k : Nat} {x : Int}
    (h : (fixed p).Admits q k x) :
    (∃ q', p.fill k q = .ok q' ∧ (fixed p).Requests q' x ∧
        q'.truncate (fixed p).baseUnit = q.truncate (fixed p).baseUnit) ∨
      p.fill k q = .error (.deadSubPeriod k) := by
  have hr : p.ranks[k]? = some x := h
  have hin := p.getElem_inRange hr
  cases hpair : p.pairing with
  | monthsOfYear =>
    simp only [hpair, Pairing.lowest, Pairing.highest] at hin
    refine .inl ⟨_, (fill_eq_ok_of_months hpair).2 ⟨x, h, rfl⟩, ?_, ?_⟩
    · show x = p.requested _
      simp only [requested, hpair]
      omega
    · simp [baseUnit, hpair, Pairing.base, TimeParts.truncate]
  | daysOfMonth =>
    simp only [hpair, Pairing.lowest, Pairing.highest] at hin
    obtain ⟨hm1, hm2⟩ := hmonth (by simp [baseUnit, hpair, Pairing.base])
    have hlast := Gregorian.daysInMonth_eq_ok (y := q.year) hm1 hm2
    by_cases hle : x ≤ Gregorian.monthLength (Gregorian.isLeap q.year) q.month
    · refine .inl ⟨_, (fill_eq_ok_of_days hpair).2 ⟨x, _, h, hlast, hle, rfl⟩, ?_, ?_⟩
      · show x = p.requested _
        simp only [requested, hpair]
        omega
      · simp [baseUnit, hpair, Pairing.base, TimeParts.truncate]
    · right
      simp [fill, hr, hpair, hlast, liftCalendar, Except.mapError, Int.lt_of_not_ge hle]
  | secondsOfDay =>
    simp only [hpair, Pairing.lowest, Pairing.highest] at hin
    have ht := ClockTime.ofSeconds_eq_ok (s := x) hin.1 (by omega)
    obtain ⟨-, -, -, hsec⟩ := ClockTime.ofSeconds_spec ht
    refine .inl ⟨_, (fill_eq_ok_of_seconds hpair).2 ⟨x, _, h, ht, rfl⟩, ?_, ?_⟩
    · show x = p.requested _
      simp only [requested, hpair]
      exact hsec.symm
    · simp [baseUnit, hpair, Pairing.base, TimeParts.truncate]

end FixedRanks

namespace DayRanking

open SubPattern

/-- The period of a time whose month, for a ranking of months, is one of the twelve is one of the
periods the ranking was checked for. -/
theorem periodOf_mem_months (p : DayRanking) {q : TimeParts}
    (hmonth : p.period = .month → 1 ≤ q.month ∧ q.month ≤ 12) :
    (p.periodOf q).2 ∈ p.period.months := by
  cases hper : p.period with
  | month =>
    have := hmonth hper
    simp only [periodOf, hper, RankingPeriod.months, List.mem_range'_1]
    omega
  | year => simp [periodOf, hper, RankingPeriod.months]

/-- Where the days of a period are known, a position admits the day of its rank there when that
day is not 0. -/
theorem admits_iff {p : DayRanking} {q : TimeParts} {days : List Nat}
    (hdays : daysIn p.ranks (p.periodOf q).1 (p.periodOf q).2 = .ok days) {k : Nat} {x : Int} :
    (dayRanking p).Admits q k x ↔ ∃ hk : k < days.length, days[k] ≠ 0 ∧ x = days[k] := by
  have hlen : p.ranks.length = days.length := (daysIn_eq_ok.1 hdays).length_eq
  constructor
  · rintro ⟨r, d, hr, hd, h0, rfl⟩
    obtain ⟨hk, rfl⟩ := List.getElem?_eq_some_iff.1 hr
    obtain ⟨hk', hdk⟩ := daysIn_getElem hdays hk
    have hdd : days[k] = d := Except.ok.inj (hdk.symm.trans hd)
    exact ⟨hk', hdd ▸ h0, by rw [hdd]⟩
  · rintro ⟨hk', h0, rfl⟩
    have hk : k < p.ranks.length := hlen ▸ hk'
    obtain ⟨_, hdk⟩ := daysIn_getElem hdays hk
    exact ⟨p.ranks[k], days[k], List.getElem?_eq_getElem hk, hdk, h0, rfl⟩

/-- A day other than 0 found among the days of a ranking is the day its position admits. -/
theorem admits_of_lookup_found {p : DayRanking} {q : TimeParts} {v : Int} {j : Nat}
    (h : p.lookup q = .ok (v, .found j)) (hv : v ≠ 0) : (dayRanking p).Admits q j v := by
  obtain ⟨n, days, -, rfl, hdays, hl⟩ := lookup_eq_ok.1 h
  cases hidx : days.idxOf? n with
  | none => simp only [hidx, reduceCtorEq] at hl
  | some i =>
    simp only [hidx, Lookup.found.injEq] at hl
    subst hl
    obtain ⟨hj, hget, -⟩ := List.idxOf?_eq_some_iff.1 hidx
    exact (admits_iff hdays).2 ⟨hj, by omega, by rw [hget]⟩

/-- Where the days of a period are known, the first of them above a day is the first position
admitting a value above it, or the number of positions when none is above. -/
theorem firstAbove_findIdx? {p : DayRanking} {q : TimeParts} {days : List Nat}
    (hdays : daysIn p.ranks (p.periodOf q).1 (p.periodOf q).2 = .ok days) (n : Nat) :
    (dayRanking p).FirstAbove q n ((days.findIdx? fun d => decide (n < d)).getD days.length) := by
  have hsize : (dayRanking p).size = days.length := (daysIn_eq_ok.1 hdays).length_eq
  unfold FirstAbove
  rw [hsize]
  cases hf : days.findIdx? fun d => decide (n < d) with
  | none =>
    have hall := List.findIdx?_eq_none_iff.1 hf
    refine ⟨Nat.le_refl _, fun k x hk hx => ?_, fun hn => absurd hn (Nat.lt_irrefl _)⟩
    obtain ⟨hk', -, rfl⟩ := (admits_iff hdays).1 hx
    have := hall _ (List.getElem_mem hk')
    simp only [decide_eq_false_iff_not, Nat.not_lt] at this
    omega
  | some j =>
    rw [Option.getD_some]
    obtain ⟨hj, habove, hbefore⟩ := List.findIdx?_eq_some_iff_getElem.1 hf
    simp only [decide_eq_true_eq] at habove hbefore
    refine ⟨Nat.le_of_lt hj, fun k x hk hx => ?_, fun _ => ⟨days[j],
      (admits_iff hdays).2 ⟨hj, by omega, rfl⟩, by omega⟩⟩
    obtain ⟨hk', -, rfl⟩ := (admits_iff hdays).1 hx
    have := hbefore k hk
    omega

/-- Where the days of a period are known, the last of them that is named and below a day is the
last position admitting a value below it, or `-1` when none is below; a rank the period does not
reach, kept as the day 0, is skipped. -/
theorem lastBelow_lastIndexWhere {p : DayRanking} {q : TimeParts} {days : List Nat}
    (hdays : daysIn p.ranks (p.periodOf q).1 (p.periodOf q).2 = .ok days) (n : Nat) :
    (dayRanking p).LastBelow q n
      (positionBelow (lastIndexWhere (fun d => d != 0 && decide (d < n)) days)) := by
  have hsize : (dayRanking p).size = days.length := (daysIn_eq_ok.1 hdays).length_eq
  have hspec := lastIndexWhere_spec (fun d => d != 0 && decide (d < n)) days
  unfold LastBelow
  rw [hsize]
  cases hlast : lastIndexWhere (fun d => d != 0 && decide (d < n)) days with
  | none =>
    rw [hlast] at hspec
    refine ⟨by simp [positionBelow], by simp only [positionBelow]; omega, fun k x _ hk hx => ?_,
      fun h0 => by simp [positionBelow] at h0⟩
    obtain ⟨hk', h0, rfl⟩ := (admits_iff hdays).1 hx
    have := hspec k hk'
    simp only [List.getD_eq_getElem _ _ hk', Bool.and_eq_false_iff, bne_eq_false_iff_eq,
      decide_eq_false_iff_not, Nat.not_lt] at this
    omega
  | some j =>
    rw [hlast] at hspec
    obtain ⟨hj, hpass, hlater⟩ := hspec
    simp only [List.getD_eq_getElem _ _ hj, Bool.and_eq_true, bne_iff_ne, ne_eq,
      decide_eq_true_eq] at hpass
    refine ⟨by simp [positionBelow], by simp [positionBelow]; omega, fun k x hjk hk hx => ?_,
      fun _ => ⟨days[j], (admits_iff hdays).2 ⟨hj, hpass.1, by simp [positionBelow]⟩, ?_⟩⟩
    · obtain ⟨hk', h0, rfl⟩ := (admits_iff hdays).1 hx
      have := hlater k (by simp only [positionBelow] at hjk; omega) hk'
      simp only [List.getD_eq_getElem _ _ hk', Bool.and_eq_false_iff, bne_eq_false_iff_eq,
        decide_eq_false_iff_not, Nat.not_lt] at this
      omega
    · omega

/-- A day missing among the days of a ranking moves up to the first day above it and down to the
last named day below it; a rank the period does not reach is skipped both ways. -/
theorem lookup_missing {p : DayRanking} {q : TimeParts} {v : Int} {next : Nat}
    {prev : Option Nat} (h : p.lookup q = .ok (v, .missing next prev)) :
    (∀ k, ¬ (dayRanking p).Admits q k v) ∧ (dayRanking p).FirstAbove q v next ∧
      (dayRanking p).LastBelow q v (positionBelow prev) := by
  obtain ⟨n, days, -, rfl, hdays, hl⟩ := lookup_eq_ok.1 h
  cases hidx : days.idxOf? n with
  | some i => simp only [hidx, reduceCtorEq] at hl
  | none =>
    simp only [hidx, Lookup.missing.injEq] at hl
    obtain ⟨rfl, rfl⟩ := hl
    refine ⟨fun k hk => ?_, firstAbove_findIdx? hdays n, lastBelow_lastIndexWhere hdays n⟩
    obtain ⟨hk', -, heq⟩ := (admits_iff hdays).1 hk
    exact List.idxOf?_eq_none_iff.1 hidx (by rw [Int.ofNat_inj.1 heq]; exact List.getElem_mem hk')

/-- The days of the period of a date whose months start on counted days are known: each rank
names a day there, or 0. -/
theorem daysIn_of_count (p : DayRanking) {parts : TimeParts}
    (hdate : Gregorian.checkDate parts.year parts.month parts.day = .ok ())
    (hcount : ∀ m, 1 ≤ m → m ≤ 12 → ∃ n, Gregorian.dayCount parts.year m 1 = .ok n) :
    ∃ days, daysIn p.ranks (p.periodOf parts).1 (p.periodOf parts).2 = .ok days := by
  obtain ⟨-, hm1, hm2, -, -⟩ := Gregorian.checkDate_eq_ok.1 hdate
  obtain ⟨f, len, hspan⟩ : ∃ f len,
      Gregorian.periodSpan (p.periodOf parts).1 (p.periodOf parts).2 = .ok (f, len) := by
    cases hper : p.period with
    | month =>
      obtain ⟨f, hf⟩ := hcount parts.month hm1 hm2
      simp only [periodOf, hper]
      exact ⟨f, _, Gregorian.periodSpan_month hm1 hm2 hf⟩
    | year =>
      obtain ⟨f, hf⟩ := hcount 1 (Nat.le_refl 1) (by omega)
      simp only [periodOf, hper]
      exact ⟨f, _, Gregorian.periodSpan_year hf⟩
  have hmem := p.periodOf_mem_months (q := parts) fun _ => ⟨hm1, hm2⟩
  refine mapM_ok_of_forall fun r hr => ?_
  obtain ⟨hr0, hrmax⟩ := p.rank_valid r hr
  obtain ⟨d, hd, -⟩ := Gregorian.dayByRank_of_periodSpan hspan r.weekday hr0
    (by rw [maxRankIn_of_mem_months hmem]; exact hrmax)
  exact ⟨d, liftCalendar_eq_ok.2 hd⟩

/-- **A date whose months start on counted days is looked up**: its day is asked for, and the days
of its period are known. -/
theorem lookup_ok (p : DayRanking) {parts : TimeParts}
    (hdate : Gregorian.checkDate parts.year parts.month parts.day = .ok ())
    (hcount : ∀ m, 1 ≤ m → m ≤ 12 → ∃ n, Gregorian.dayCount parts.year m 1 = .ok n) :
    ∃ vl, p.lookup parts = .ok vl := by
  obtain ⟨days, hdays⟩ := p.daysIn_of_count hdate hcount
  obtain ⟨n, hn⟩ : ∃ n, p.RequestedDay parts n := by
    unfold RequestedDay
    cases p.period with
    | month => exact ⟨_, rfl⟩
    | year => exact ⟨_, Gregorian.dayOfYear_eq_ok.2 ⟨hdate, rfl⟩⟩
  exact ⟨_, lookup_eq_ok.2 ⟨n, days, hn, rfl, hdays, rfl⟩⟩

/-- **Filling a position of a ranking writes the day its rank names**, in the same period: the
filled time asks for that day, of its month or of its year. -/
theorem fill_of_admits (p : DayRanking) {q : TimeParts} {k : Nat} {x : Int}
    (h : (dayRanking p).Admits q k x) :
    ∃ q', p.fill k q = .ok q' ∧ (dayRanking p).Requests q' x ∧
      q'.truncate (dayRanking p).baseUnit = q.truncate (dayRanking p).baseUnit := by
  obtain ⟨r, d, hr, hd, h0, rfl⟩ := h
  cases hper : p.period with
  | month =>
    simp only [periodOf, hper] at hd
    refine ⟨_, (fill_eq_ok_of_month hper).2 ⟨r, d, hr, hd, h0, rfl⟩,
      ⟨d, by simp [RequestedDay, hper], rfl⟩, ?_⟩
    simp [baseUnit, hper, RankingPeriod.unit, TimeParts.truncate]
  | year =>
    simp only [periodOf, hper] at hd
    obtain ⟨f, len, hspan, hle⟩ := Gregorian.dayByRank_le hd
    obtain ⟨-, hlen⟩ := Gregorian.periodSpan_eq_ok.1 hspan
    simp only [↓reduceIte, Except.ok.injEq] at hlen
    subst hlen
    obtain ⟨m', d', hmd, hm1, hm2, hd1, hd2, hsum⟩ :=
      Gregorian.monthAndDay_spec (Gregorian.isLeap q.year) d (Nat.pos_of_ne_zero h0) hle
    have hvalid : Gregorian.checkDate q.year m' d' = .ok () :=
      Gregorian.checkDate_eq_ok.2 ⟨Gregorian.dayByRank_year_nonneg hd, hm1, hm2, hd1, hd2⟩
    refine ⟨_, (fill_eq_ok_of_year hper).2 ⟨r, d, m', d', hr, hd, h0, hmd, rfl⟩, ⟨d, ?_, rfl⟩, ?_⟩
    · simp only [RequestedDay, hper]
      exact Gregorian.dayOfYear_eq_ok.2 ⟨hvalid, hsum.symm⟩
    · simp [baseUnit, hper, RankingPeriod.unit, TimeParts.truncate]

end DayRanking

namespace SubPattern

/-! ### Lookups -/

/-- The value a lookup returns is the value the time asks for. -/
theorem requests_of_lookup {s : SubPattern} {q : TimeParts} {v : Int} {l : Lookup}
    (h : s.lookup q = .ok (v, l)) : s.Requests q v := by
  cases s with
  | fixed p => exact (Prod.mk.inj (Except.ok.inj h)).1.symm
  | dayRanking p =>
    obtain ⟨n, -, hn, rfl, -⟩ := DayRanking.lookup_eq_ok.1 h
    exact ⟨n, hn, rfl⟩

/-- A time asks for one value. -/
theorem requests_unique {s : SubPattern} {q : TimeParts} {v v' : Int} (h : s.Requests q v)
    (h' : s.Requests q v') : v = v' := by
  cases s with
  | fixed p => exact h.trans h'.symm
  | dayRanking p =>
    obtain ⟨n, hn, rfl⟩ := h
    obtain ⟨n', hn', rfl⟩ := h'
    unfold DayRanking.RequestedDay at hn hn'
    cases hper : p.period <;> simp only [hper] at hn hn'
    · exact congrArg _ (hn.trans hn'.symm)
    · exact congrArg _ (Except.ok.inj (hn.symm.trans hn'))

/-- **Two positions never admit one value** in a base period: fixed ranks are distinct, and the
days of ranked weekdays come in list order in every period. -/
theorem admits_inj {s : SubPattern} {q : TimeParts}
    (hmonth : s.baseUnit = .month → 1 ≤ q.month ∧ q.month ≤ 12) {k j : Nat} {x : Int}
    (hk : s.Admits q k x) (hj : s.Admits q j x) : k = j := by
  cases s with
  | fixed p =>
    have hfound := (p.locateAmong_of_getElem? hk).symm.trans (p.locateAmong_of_getElem? hj)
    exact Lookup.found.inj hfound
  | dayRanking p =>
    obtain ⟨r, d, hr, hd, h0, rfl⟩ := hk
    obtain ⟨r', d', hr', hd', h0', hdd⟩ := hj
    obtain rfl : d' = d := by omega
    have hm := p.periodOf_mem_months fun hper => hmonth (by simp [baseUnit, hper, RankingPeriod.unit])
    obtain ⟨days, hdays, hidx⟩ := p.idxOf?_of_dayByRank hm hr hd h0
    obtain ⟨days', hdays', hidx'⟩ := p.idxOf?_of_dayByRank hm hr' hd' h0'
    obtain rfl : days' = days := Except.ok.inj (hdays'.symm.trans hdays)
    exact Option.some.inj (hidx.symm.trans hidx')

/-- A value found by a lookup is the value of its position, where a ranking is not asked for the
day 0. -/
theorem admits_of_lookup_found {s : SubPattern} {q : TimeParts} {v : Int} {j : Nat}
    (h : s.lookup q = .ok (v, .found j)) (hday : ∀ p, s = .dayRanking p → v ≠ 0) :
    s.Admits q j v := by
  cases s with
  | fixed p => exact p.admits_of_lookup_found (Except.ok.inj h)
  | dayRanking p => exact DayRanking.admits_of_lookup_found h (hday p rfl)

/-- A value missing from a lookup is admitted nowhere, and the lookup names the positions above
and below it. -/
theorem lookup_missing {s : SubPattern} {q : TimeParts} {v : Int} {next : Nat}
    {prev : Option Nat} (h : s.lookup q = .ok (v, .missing next prev)) :
    (∀ k, ¬ s.Admits q k v) ∧ s.FirstAbove q v next ∧ s.LastBelow q v (positionBelow prev) := by
  cases s with
  | fixed p => exact p.lookup_missing (Except.ok.inj h)
  | dayRanking p => exact DayRanking.lookup_missing h

/-! ### Placing a position -/

variable {t : Int} {n : Nat} {v : Int}

theorem place_of_not_fits (h : ¬ Word.Fits (t * n)) (l : Lookup) (a : Adjustment) :
    place t n v l a = .error (.overflow .subPeriodAdjustment) := by
  unfold place
  rw [Word.within_of_not_fits _ h]
  rfl

theorem place_found_eq (h : Word.Fits (t * n)) (j : Nat) (a : Adjustment) :
    place t n v (.found j) a = Word.within (.overflow .subPeriodAdjustment) (t * n + j) := by
  unfold place
  rw [Word.within_of_fits _ h]
  rfl

theorem place_missing_none (h : Word.Fits (t * n)) (next : Nat) (prev : Option Nat) :
    place t n v (.missing next prev) .none = .error (.missingSubPeriod t v) := by
  unfold place
  rw [Word.within_of_fits _ h]
  rfl

theorem place_missing_up (h : Word.Fits (t * n)) (next : Nat) (prev : Option Nat) :
    place t n v (.missing next prev) .up = Word.within (.overflow .subPeriodAdjustment) (t * n + next) := by
  unfold place
  rw [Word.within_of_fits _ h]
  rfl

theorem place_missing_down (h : Word.Fits (t * n)) (next : Nat) (prev : Option Nat) :
    place t n v (.missing next prev) .down =
      Word.within (.overflow .subPeriodAdjustment) (t * n + positionBelow prev) := by
  unfold place
  rw [Word.within_of_fits _ h]
  cases prev <;> rfl

theorem locate_of_lookup {s : SubPattern} {q : TimeParts} {l : Lookup}
    (h : s.lookup q = .ok (v, l)) (a : Adjustment) : s.locate t a q = place t s.size v l a := by
  simp only [locate, h, except_ok_bind]

/-! ### Filling a position -/

/-- Only the positions of the pattern can be filled. -/
theorem fill_of_size_le {s : SubPattern} {k : Nat} (h : s.size ≤ k) (q : TimeParts) :
    s.fill k q = .error (.positionOutOfRange k s.size) := by
  simp [fill, h]

/-- **Filling a position writes the value it admits**, in the same base period: the filled time
asks for that value. Only a fixed day past the end of the time's month is dead instead. -/
theorem fill_of_admits {s : SubPattern} {q : TimeParts}
    (hmonth : s.baseUnit = .month → 1 ≤ q.month ∧ q.month ≤ 12) {k : Nat} {x : Int}
    (h : s.Admits q k x) :
    (∃ q', s.fill k q = .ok q' ∧ s.Requests q' x ∧ q'.truncate s.baseUnit = q.truncate s.baseUnit) ∨
      s.fill k q = .error (.deadSubPeriod k) := by
  cases s with
  | fixed p =>
    rw [fill_fixed]
    exact p.fill_of_admits hmonth h
  | dayRanking p =>
    rw [fill_dayRanking]
    exact .inl (p.fill_of_admits h)

/-- A position that admits no value in the base period of a time, where the lookup succeeds, is
dead there: a rank the period does not reach. -/
theorem fill_of_not_admits {s : SubPattern} {q : TimeParts} (hlookup : ∃ vl, s.lookup q = .ok vl)
    {k : Nat} (hk : k < s.size) (hdead : ∀ x, ¬ s.Admits q k x) :
    s.fill k q = .error (.deadSubPeriod k) := by
  cases s with
  | fixed p => exact absurd (List.getElem?_eq_getElem hk) (hdead p.ranks[k])
  | dayRanking p =>
    obtain ⟨⟨v, l⟩, hl⟩ := hlookup
    obtain ⟨n, days, -, -, hdays, -⟩ := DayRanking.lookup_eq_ok.1 hl
    have hk' : k < p.ranks.length := hk
    obtain ⟨hkd, hd⟩ := DayRanking.daysIn_getElem hdays hk'
    have h0 : days[k] = 0 := by
      by_contra h0
      exact hdead _ ((DayRanking.admits_iff hdays).2 ⟨hkd, h0, rfl⟩)
    rw [h0] at hd
    simp [fill_dayRanking, DayRanking.fill, List.getElem?_eq_getElem hk', hd, liftCalendar,
      Except.mapError]

/-! ### The encoding -/

/-- **The number of a time's sub-period, for every adjustment.** Let the lookup of a time succeed,
with its month one of the twelve when the base period is a month, and let `v` be the value it asks
for, not 0 from a ranking. When the scaled base period `t * size` leaves the word, every adjustment
is refused as an overflow. Otherwise a position admitting `v` numbers the time as
`t * size + k`, whatever the adjustment; and where no position admits `v`, the time is refused
without adjustment, moves up to the first position admitting a larger value (`size` when none
does), and moves down to the last position admitting a smaller one (`-1` when none does). Each
number is refused as an overflow when it leaves the word. Going the other way, filling a position
of the pattern writes the value it admits into the time, in the same base period, and a position
that admits nothing there, or a fixed day past the end of the month, is dead. -/
theorem locate_position_encoding (s : SubPattern) (t : Int) (q : TimeParts) (v : Int)
    (hmonth : s.baseUnit = .month → 1 ≤ q.month ∧ q.month ≤ 12)
    (hlookup : ∃ vl, s.lookup q = .ok vl) (hv : s.Requests q v)
    (hday : ∀ p, s = .dayRanking p → v ≠ 0) :
    (¬ Word.Fits (t * s.size) → ∀ a, s.locate t a q = .error (.overflow .subPeriodAdjustment)) ∧
    (Word.Fits (t * s.size) →
      (∀ k, s.Admits q k v → ∀ a,
        s.locate t a q = Word.within (.overflow .subPeriodAdjustment) (t * s.size + k)) ∧
      ((∀ k, ¬ s.Admits q k v) →
        s.locate t .none q = .error (.missingSubPeriod t v) ∧
        (∃ j, s.FirstAbove q v j ∧
          s.locate t .up q = Word.within (.overflow .subPeriodAdjustment) (t * s.size + j)) ∧
        (∃ j, s.LastBelow q v j ∧
          s.locate t .down q = Word.within (.overflow .subPeriodAdjustment) (t * s.size + j)))) ∧
    (∀ k, s.size ≤ k → s.fill k q = .error (.positionOutOfRange k s.size)) ∧
    (∀ k x, s.Admits q k x →
      (∃ q', s.fill k q = .ok q' ∧ s.Requests q' x ∧ q'.truncate s.baseUnit = q.truncate s.baseUnit) ∨
        s.fill k q = .error (.deadSubPeriod k)) ∧
    (∀ k, k < s.size → (∀ x, ¬ s.Admits q k x) → s.fill k q = .error (.deadSubPeriod k)) := by
  obtain ⟨⟨v', l⟩, hl⟩ := hlookup
  obtain rfl : v' = v := requests_unique (requests_of_lookup hl) hv
  refine ⟨fun hfit a => by rw [locate_of_lookup hl, place_of_not_fits hfit], fun hfit => ⟨?_, ?_⟩,
    fun k hk => fill_of_size_le hk q, fun k x hx => fill_of_admits hmonth hx,
    fun k hk hdead => fill_of_not_admits ⟨_, hl⟩ hk hdead⟩
  · intro k hk a
    cases l with
    | found j =>
      rw [locate_of_lookup hl, place_found_eq hfit,
        admits_inj hmonth hk (admits_of_lookup_found hl hday)]
    | missing next prev => exact absurd hk ((lookup_missing hl).1 k)
  · intro hnone
    cases l with
    | found j => exact absurd (admits_of_lookup_found hl hday) (hnone j)
    | missing next prev =>
      obtain ⟨-, habove, hbelow⟩ := lookup_missing hl
      exact ⟨by rw [locate_of_lookup hl, place_missing_none hfit],
        ⟨next, habove, by rw [locate_of_lookup hl, place_missing_up hfit]⟩,
        ⟨_, hbelow, by rw [locate_of_lookup hl, place_missing_down hfit]⟩⟩

/-- The 10th and the 20th of each month, asked for the 25th of June 2008 in base period 7: no
position admits the 25th, so it moves down to the 20th, number `7 * 2 + 1`, and up to the first
position of the next month, number `7 * 2 + 2`. -/
theorem tenthAndTwentieth_moves_the_twenty_fifth :
    let s : SubPattern := .fixed ⟨.daysOfMonth, [10, 20], by simp, by decide, by decide⟩
    let q : TimeParts := { year := 2008, month := 6, day := 25 }
    (s.baseUnit = .month → 1 ≤ q.month ∧ q.month ≤ 12) ∧ (∃ vl, s.lookup q = .ok vl) ∧
      s.Requests q 25 ∧ (∀ p, s = .dayRanking p → (25 : Int) ≠ 0) ∧
      s.locate 7 .down q = .ok 15 ∧ s.locate 7 .up q = .ok 16 := by
  intro s q
  have hsize : s.size = 2 := rfl
  have hmonth : s.baseUnit = .month → 1 ≤ q.month ∧ q.month ≤ 12 := fun _ => by decide
  have hlookup : ∃ vl, s.lookup q = .ok vl := ⟨_, rfl⟩
  have hv : s.Requests q 25 := rfl
  have hday : ∀ p, s = .dayRanking p → (25 : Int) ≠ 0 := fun _ _ => by decide
  have hadmits : ∀ k x, s.Admits q k x → k = 0 ∧ x = 10 ∨ k = 1 ∧ x = 20 := by
    intro k x hk
    rcases k with _ | _ | k <;> simp_all [s, Admits]
  obtain ⟨-, hfit, -⟩ := locate_position_encoding s 7 q 25 hmonth hlookup hv hday
  obtain ⟨-, hmissing⟩ := hfit (by decide)
  obtain ⟨-, ⟨j, habove, hup⟩, ⟨i, hbelow, hdown⟩⟩ :=
    hmissing fun k hk => by rcases hadmits k 25 hk with ⟨-, h⟩ | ⟨-, h⟩ <;> omega
  unfold FirstAbove at habove
  unfold LastBelow at hbelow
  rw [hsize] at habove hbelow hup hdown
  have hj : j = 2 := by
    obtain ⟨hle, -, hnext⟩ := habove
    by_contra hne
    obtain ⟨x, hx, hlt⟩ := hnext (by omega)
    rcases hadmits j x hx with ⟨-, rfl⟩ | ⟨-, rfl⟩ <;> omega
  have hi : i = 1 := by
    obtain ⟨hge, hlt, hlater, -⟩ := hbelow
    have h20 : s.Admits q 1 20 := rfl
    have := fun h => hlater 1 20 h (by decide) h20
    omega
  subst hj hi
  refine ⟨hmonth, hlookup, hv, hday, ?_, ?_⟩
  · rw [hdown]
    exact Word.within_of_fits _ (by decide)
  · rw [hup]
    exact Word.within_of_fits _ (by decide)

/-- The first three months of each year, asked for March in base period
`3074457345618258602`: the scaled base period `9223372036854775806` fits the word, and the third
position admits March, yet the number `9223372036854775808` of that position leaves the word and is
refused as an overflow. -/
theorem firstQuarter_last_position_overflows :
    let s : SubPattern := .fixed ⟨.monthsOfYear, [1, 2, 3], by simp, by decide, by decide⟩
    let q : TimeParts := { month := 3 }
    Word.Fits (3074457345618258602 * s.size) ∧ s.Requests q 3 ∧ s.Admits q 2 3 ∧
      s.locate 3074457345618258602 .none q = .error (.overflow .subPeriodAdjustment) := by
  intro s q
  have hfit : Word.Fits (3074457345618258602 * s.size) := by decide
  have hl : s.lookup q = .ok (3, .found 2) := rfl
  refine ⟨hfit, rfl, rfl, ?_⟩
  rw [locate_of_lookup hl, place_found_eq hfit]
  exact Word.within_of_not_fits _ (by decide)

/-! ### Positions in order -/

/-- A position admits one value in a base period. -/
theorem admits_unique {s : SubPattern} {q : TimeParts} {k : Nat} {x y : Int}
    (hx : s.Admits q k x) (hy : s.Admits q k y) : x = y := by
  cases s with
  | fixed p =>
    have hx' : p.ranks[k]? = some x := hx
    have hy' : p.ranks[k]? = some y := hy
    exact Option.some.inj (hx'.symm.trans hy')
  | dayRanking p =>
    obtain ⟨r, d, hr, hd, -, rfl⟩ := hx
    obtain ⟨r', d', hr', hd', -, rfl⟩ := hy
    obtain rfl := Option.some.inj (hr.symm.trans hr')
    rw [Except.ok.inj (hd.symm.trans hd')]

/-- **Later positions admit larger values**: fixed ranks are sorted, and the days of ranked
weekdays come in list order in every period. -/
theorem admits_lt {s : SubPattern} {q : TimeParts}
    (hmonth : s.baseUnit = .month → 1 ≤ q.month ∧ q.month ≤ 12) {j k : Nat} {x y : Int}
    (hx : s.Admits q j x) (hy : s.Admits q k y) (hjk : j < k) : x < y := by
  cases s with
  | fixed p =>
    have hx' : p.ranks[j]? = some x := hx
    have hy' : p.ranks[k]? = some y := hy
    obtain ⟨hj, rfl⟩ := List.getElem?_eq_some_iff.1 hx'
    obtain ⟨hk, rfl⟩ := List.getElem?_eq_some_iff.1 hy'
    exact List.pairwise_iff_getElem.1 p.sorted j k hj hk hjk
  | dayRanking p =>
    obtain ⟨r, d, hr, hd, h0, rfl⟩ := hx
    obtain ⟨r', d', hr', hd', h0', rfl⟩ := hy
    have hm := p.periodOf_mem_months fun hper =>
      hmonth (by simp [baseUnit, hper, RankingPeriod.unit])
    exact Int.ofNat_lt.2 (p.dayByRank_lt hm hr hd h0 hr' hd' h0' hjk)

/-- What a position admits depends on a time only through its base period. -/
theorem admits_truncate {s : SubPattern} {q : TimeParts} {k : Nat} {x : Int} :
    s.Admits (q.truncate s.baseUnit) k x ↔ s.Admits q k x := by
  cases s with
  | fixed p => exact Iff.rfl
  | dayRanking p =>
    have hperiod : p.periodOf (q.truncate p.period.unit) = p.periodOf q := by
      unfold DayRanking.periodOf
      cases p.period <;> rfl
    simp only [Admits, baseUnit, hperiod]

/-- A filled position admits the value the filled time asks for. -/
theorem admits_of_fill {s : SubPattern} {parts q : TimeParts}
    (hmonth : s.baseUnit = .month → 1 ≤ parts.month ∧ parts.month ≤ 12) {k : Nat}
    (h : s.fill k parts = .ok q) : ∃ x, s.Admits parts k x ∧ s.Requests q x := by
  obtain ⟨x, hx⟩ : ∃ x, s.Admits parts k x := by
    cases s with
    | fixed p =>
      have hk := FixedRanks.lt_length_of_fill (fill_fixed p k parts ▸ h)
      exact ⟨_, List.getElem?_eq_getElem hk⟩
    | dayRanking p =>
      rw [fill_dayRanking] at h
      cases hper : p.period with
      | month =>
        obtain ⟨r, d, hr, hd, h0, -⟩ := (DayRanking.fill_eq_ok_of_month hper).1 h
        exact ⟨d, r, d, hr, by simpa [DayRanking.periodOf, hper] using hd, h0, rfl⟩
      | year =>
        obtain ⟨r, d, -, -, hr, hd, h0, -⟩ := (DayRanking.fill_eq_ok_of_year hper).1 h
        exact ⟨d, r, d, hr, by simpa [DayRanking.periodOf, hper] using hd, h0, rfl⟩
  rcases fill_of_admits hmonth hx with ⟨q', hq', hreq, -⟩ | hdead
  · rw [h, Except.ok.injEq] at hq'
    exact ⟨x, hx, hq' ▸ hreq⟩
  · rw [h] at hdead
    cases hdead

/-- A lookup reads a time only down to the unit of the sub-periods. -/
theorem lookup_truncate (s : SubPattern) (q : TimeParts) :
    s.lookup (q.truncate s.subUnit) = s.lookup q := by
  cases s with
  | fixed p =>
    cases hpair : p.pairing <;>
      simp [lookup, FixedRanks.lookup, FixedRanks.requested, subUnit, hpair, Pairing.sub,
        TimeParts.truncate]
  | dayRanking p =>
    cases hper : p.period <;>
      simp [lookup, DayRanking.lookup, DayRanking.periodOf, subUnit, hper, TimeParts.truncate]

/-- Position `j` is the first that admits a value at least `v`, or `size` when none does: where
going up moves a time that asks for `v`. -/
def FirstAtLeast (s : SubPattern) (q : TimeParts) (v : Int) (j : Nat) : Prop :=
  j ≤ s.size ∧ (∀ k x, k < j → s.Admits q k x → x < v) ∧
    (j < s.size → ∃ x, s.Admits q j x ∧ v ≤ x)

/-- Position `j` is the last that admits a value at most `v`, or `-1` when none does: where going
down moves a time that asks for `v`. -/
def LastAtMost (s : SubPattern) (q : TimeParts) (v : Int) (j : Int) : Prop :=
  -1 ≤ j ∧ j < s.size ∧ (∀ (k : Nat) x, j < k → s.Admits q k x → v < x) ∧
    (0 ≤ j → ∃ x, s.Admits q j.toNat x ∧ x ≤ v)

section Nearest

variable {s : SubPattern} {q : TimeParts} {v : Int}
  (hmonth : s.baseUnit = .month → 1 ≤ q.month ∧ q.month ≤ 12)

include hmonth

/-- A position admits a value at least `v` exactly when it is at or after the first such. -/
theorem FirstAtLeast.le_iff {j k : Nat} {x : Int} (h : s.FirstAtLeast q v j)
    (hx : s.Admits q k x) : v ≤ x ↔ j ≤ k := by
  obtain ⟨-, hbelow, hat⟩ := h
  constructor
  · intro hvx
    by_contra hkj
    have := hbelow k x (by omega) hx
    omega
  · intro hjk
    obtain ⟨y, hy, hvy⟩ := hat (by have := lt_size_of_admits hx; omega)
    rcases Nat.lt_or_eq_of_le hjk with hlt | rfl
    · have := admits_lt hmonth hy hx hlt
      omega
    · rw [admits_unique hx hy]
      exact hvy

/-- A position admits a value at most `v` exactly when it is at or before the last such. -/
theorem LastAtMost.le_iff {j : Int} {k : Nat} {x : Int} (h : s.LastAtMost q v j)
    (hx : s.Admits q k x) : x ≤ v ↔ (k : Int) ≤ j := by
  obtain ⟨-, -, habove, hat⟩ := h
  constructor
  · intro hxv
    by_contra hjk
    have := habove k x (by omega) hx
    omega
  · intro hkj
    obtain ⟨y, hy, hyv⟩ := hat (by omega)
    rcases Int.lt_or_eq_of_le hkj with hlt | heq
    · have := admits_lt hmonth hx hy (by omega)
      omega
    · obtain rfl : k = j.toNat := by omega
      rw [admits_unique hx hy]
      exact hyv

variable {l : Lookup} (hl : s.lookup q = .ok (v, l)) (hday : ∀ p, s = .dayRanking p → v ≠ 0)

include hl hday

/-- **Going up moves to the first position admitting at least the value asked for.** The position
that admits the value is found first. -/
theorem firstAtLeast_of_lookup :
    ∃ j, s.FirstAtLeast q v j ∧ ∀ t, Word.Fits (t * s.size) →
      s.locate t .up q = Word.within (.overflow .subPeriodAdjustment) (t * s.size + j) := by
  cases l with
  | found k =>
    have hk := admits_of_lookup_found hl hday
    refine ⟨k, ⟨Nat.le_of_lt (lt_size_of_admits hk), fun k' x hk' hx => admits_lt hmonth hx hk hk',
      fun _ => ⟨v, hk, Int.le_refl v⟩⟩, fun t hfit => ?_⟩
    rw [locate_of_lookup hl, place_found_eq hfit]
  | missing next prev =>
    obtain ⟨hnone, ⟨hle, hbelow, hat⟩, -⟩ := lookup_missing hl
    refine ⟨next, ⟨hle, fun k x hk hx => ?_, fun hn => ?_⟩, fun t hfit => ?_⟩
    · have hxv := hbelow k x hk hx
      have hne : x ≠ v := fun heq => hnone k (heq ▸ hx)
      omega
    · obtain ⟨x, hx, hvx⟩ := hat hn
      exact ⟨x, hx, Int.le_of_lt hvx⟩
    · rw [locate_of_lookup hl, place_missing_up hfit]

/-- **Going down moves to the last position admitting at most the value asked for.** -/
theorem lastAtMost_of_lookup :
    ∃ j, s.LastAtMost q v j ∧ ∀ t, Word.Fits (t * s.size) →
      s.locate t .down q = Word.within (.overflow .subPeriodAdjustment) (t * s.size + j) := by
  cases l with
  | found k =>
    have hk := admits_of_lookup_found hl hday
    refine ⟨k, ⟨by omega, by have := lt_size_of_admits hk; omega,
      fun k' x hk' hx => admits_lt hmonth hk hx (by omega),
      fun _ => ⟨v, by simpa using hk, Int.le_refl v⟩⟩, fun t hfit => ?_⟩
    rw [locate_of_lookup hl, place_found_eq hfit]
  | missing next prev =>
    obtain ⟨hnone, -, hge, hlt, habove, hat⟩ := lookup_missing hl
    refine ⟨positionBelow prev, ⟨hge, hlt, fun k x hk hx => ?_, fun h0 => ?_⟩, fun t hfit => ?_⟩
    · have hvx := habove k x hk (lt_size_of_admits hx) hx
      have hne : x ≠ v := fun heq => hnone k (heq ▸ hx)
      omega
    · obtain ⟨x, hx, hxv⟩ := hat h0
      exact ⟨x, hx, Int.le_of_lt hxv⟩
    · rw [locate_of_lookup hl, place_missing_down hfit]

end Nearest

end SubPattern

end Chronology
