import Chronology.Pattern.SubPattern
import Chronology.Proofs.Pattern.DayRanking

/-!
# Positions of a sub-period pattern

A sub-period pattern numbers the sub-periods of base period `t` from `t * size`. `fill` sets the
sub-period of a time to the one at a position, and `locate` finds the number of a time's
sub-period. This module proves that the two agree: the time `fill` gives is located at its
position, and a time located at a position is what `fill` gives there. For fixed ranks this
rests on the ranks being sorted and distinct; for ranked weekdays, on their days coming in list
order in every year.

## Main results

* `FixedRanks.lookup_fill`, `FixedRanks.fill_lookup`: the two directions for fixed ranks.
* `SubPattern.locate_fill`: the time at a position is located there.
* `SubPattern.fill_locate`: a time located without adjustment is the time at its position.
-/

namespace Chronology

open TimeParts

namespace FixedRanks

/-! ### Fixed ranks -/

/-- Among sorted distinct ranks, each rank stands at its own position. -/
theorem locateAmong_getElem {ranks : List Int} (hsorted : ranks.Pairwise (· < ·)) {j : Nat}
    (hj : j < ranks.length) : locateAmong ranks ranks[j] = .found j := by
  have hidx : ranks.idxOf? ranks[j] = some j := by
    refine List.idxOf?_eq_some_iff.2 ⟨hj, rfl, fun i hi heq => ?_⟩
    have := List.pairwise_iff_getElem.1 hsorted i j (by omega) hj hi
    omega
  simp [locateAmong, hidx]

/-- A value stands at a position exactly when it is first found there. -/
theorem locateAmong_eq_found {ranks : List Int} {v : Int} {j : Nat} :
    locateAmong ranks v = .found j ↔ ranks.idxOf? v = some j := by
  unfold locateAmong
  cases ranks.idxOf? v <;> simp

theorem fill_eq_ok_of_months {p : FixedRanks} (hpair : p.pairing = .monthsOfYear) {j : Nat}
    {parts q : TimeParts} :
    p.fill j parts = .ok q ↔ ∃ rank, p.ranks[j]? = some rank ∧ q = { parts with month := rank.toNat } := by
  unfold fill
  cases p.ranks[j]? <;> simp [hpair, eq_comm]

theorem fill_eq_ok_of_days {p : FixedRanks} (hpair : p.pairing = .daysOfMonth) {j : Nat}
    {parts q : TimeParts} :
    p.fill j parts = .ok q ↔ ∃ rank last, p.ranks[j]? = some rank ∧
      Gregorian.daysInMonth parts.year parts.month = .ok last ∧ rank ≤ last ∧
        q = { parts with day := rank.toNat } := by
  unfold fill
  cases p.ranks[j]? with
  | none => simp
  | some rank =>
    simp only [hpair, bind_eq_ok, liftCalendar_eq_ok, Option.some.injEq]
    constructor
    · rintro ⟨last, hlast, h⟩
      split at h
      · simp at h
      · exact ⟨rank, last, rfl, hlast, by omega, by simpa [eq_comm] using h⟩
    · rintro ⟨rank, last, rfl, hlast, hle, rfl⟩
      exact ⟨last, hlast, by simp [Int.not_lt.2 hle]⟩

theorem fill_eq_ok_of_seconds {p : FixedRanks} (hpair : p.pairing = .secondsOfDay) {j : Nat}
    {parts q : TimeParts} :
    p.fill j parts = .ok q ↔ ∃ rank t, p.ranks[j]? = some rank ∧ ClockTime.ofSeconds rank = .ok t ∧
      q = { parts with hour := t.hour, minute := t.minute, second := t.second } := by
  unfold fill
  cases p.ranks[j]? with
  | none => simp
  | some rank =>
    simp only [hpair, bind_eq_ok, liftCalendar_eq_ok, Option.some.injEq]
    constructor
    · rintro ⟨t, ht, h⟩
      exact ⟨rank, t, rfl, ht, by simpa [eq_comm] using h⟩
    · rintro ⟨rank, t, rfl, ht, rfl⟩
      exact ⟨t, ht, rfl⟩

/-- The rank at a position lies in the range of the pattern's pairing. -/
theorem getElem_inRange (p : FixedRanks) {j : Nat} {rank : Int} (hr : p.ranks[j]? = some rank) :
    p.pairing.lowest ≤ rank ∧ rank ≤ p.pairing.highest := by
  obtain ⟨hj, rfl⟩ := List.getElem?_eq_some_iff.1 hr
  exact p.inRange _ (List.getElem_mem hj)

/-- The rank at a position stands at that position. -/
theorem locateAmong_of_getElem? (p : FixedRanks) {j : Nat} {rank : Int}
    (hr : p.ranks[j]? = some rank) : locateAmong p.ranks rank = .found j := by
  obtain ⟨hj, rfl⟩ := List.getElem?_eq_some_iff.1 hr
  exact locateAmong_getElem p.sorted hj

/-- Only the positions of the pattern can be filled. -/
theorem lt_length_of_fill {p : FixedRanks} {j : Nat} {parts q : TimeParts}
    (h : p.fill j parts = .ok q) : j < p.ranks.length := by
  unfold fill at h
  cases hr : p.ranks[j]? with
  | none => simp [hr] at h
  | some r => exact (List.getElem?_eq_some_iff.1 hr).1

/-- **`lookup` finds a time that `fill` gave at its position**: filling a position of a normal
time at the start of its base period gives a normal time at the start of its sub-period, in the
same base period, whose value is found at that position. -/
theorem lookup_fill (p : FixedRanks) {j : Nat} {parts q : TimeParts} (hparts : parts.Normal)
    (htr : parts.truncate p.pairing.base = parts) (h : p.fill j parts = .ok q) :
    q.Normal ∧ q.truncate p.pairing.sub = q ∧ q.truncate p.pairing.base = parts ∧
      ∃ v, p.lookup q = (v, .found j) := by
  obtain ⟨year, month, day, hour, minute, second, nanos, offset⟩ := parts
  obtain ⟨hdate, hh, hmi, hs, hn, ho⟩ := hparts
  dsimp only at hdate hh hmi hs hn ho
  subst ho
  obtain ⟨hy, hm1, hm2, hd1, hd2⟩ := Gregorian.checkDate_eq_ok.1 hdate
  cases hpair : p.pairing with
  | monthsOfYear =>
    rw [hpair] at htr
    simp only [Pairing.base, truncate, TimeParts.mk.injEq] at htr
    obtain ⟨-, rfl, rfl, rfl, rfl, rfl, rfl, -⟩ := htr
    obtain ⟨rank, hr, rfl⟩ := (fill_eq_ok_of_months hpair).1 h
    have hin := p.getElem_inRange hr
    simp only [hpair, Pairing.lowest, Pairing.highest] at hin
    have hm1' : 1 ≤ rank.toNat := by omega
    have hm2' : rank.toNat ≤ 12 := by omega
    refine ⟨⟨Gregorian.checkDate_month_start hy hm1' hm2', by simp, by simp, by simp, hn, rfl⟩,
      rfl, rfl, rank, ?_⟩
    have hreq : ((rank.toNat : Nat) : Int) = rank := Int.toNat_of_nonneg (by omega)
    simp only [lookup, requested, hpair, hreq, p.locateAmong_of_getElem? hr]
  | daysOfMonth =>
    rw [hpair] at htr
    simp only [Pairing.base, truncate, TimeParts.mk.injEq] at htr
    obtain ⟨-, -, rfl, rfl, rfl, rfl, rfl, -⟩ := htr
    obtain ⟨rank, last, hr, hlast, hle, rfl⟩ := (fill_eq_ok_of_days hpair).1 h
    have hin := p.getElem_inRange hr
    simp only [hpair, Pairing.lowest, Pairing.highest] at hin
    rw [Gregorian.daysInMonth_eq_ok hm1 hm2, Except.ok.injEq] at hlast
    subst hlast
    dsimp only at hle
    have hd1' : 1 ≤ rank.toNat := by omega
    have hd2' : rank.toNat ≤ Gregorian.monthLength (Gregorian.isLeap year) month := by omega
    refine ⟨⟨Gregorian.checkDate_eq_ok.2 ⟨hy, hm1, hm2, hd1', hd2'⟩, by simp, by simp, by simp, hn,
      rfl⟩, rfl, rfl, rank, ?_⟩
    have hreq : ((rank.toNat : Nat) : Int) = rank := Int.toNat_of_nonneg (by omega)
    simp only [lookup, requested, hpair, hreq, p.locateAmong_of_getElem? hr]
  | secondsOfDay =>
    rw [hpair] at htr
    simp only [Pairing.base, truncate, TimeParts.mk.injEq] at htr
    obtain ⟨-, -, -, rfl, rfl, rfl, rfl, -⟩ := htr
    obtain ⟨rank, t, hr, ht, rfl⟩ := (fill_eq_ok_of_seconds hpair).1 h
    obtain ⟨hth, htm, hts, hsec⟩ := ClockTime.ofSeconds_spec ht
    refine ⟨⟨hdate, hth, htm, hts, hn, rfl⟩, rfl, rfl, rank, ?_⟩
    simp only [lookup, requested, hpair, hsec, p.locateAmong_of_getElem? hr]

/-- **`fill` at the position `lookup` found gives back the time**, cut down to the sub-period. The
value found is the rank at the position. -/
theorem fill_lookup (p : FixedRanks) {q : TimeParts} (hq : q.Normal) {v : Int} {j : Nat}
    (h : p.lookup q = (v, .found j)) :
    p.fill j (q.truncate p.pairing.base) = .ok (q.truncate p.pairing.sub) := by
  have hidx := locateAmong_eq_found.1 (congrArg Prod.snd h)
  obtain ⟨hj, hget, -⟩ := List.idxOf?_eq_some_iff.1 hidx
  have hr : p.ranks[j]? = some (p.requested q) := by rw [← hget]; exact List.getElem?_eq_getElem hj
  obtain ⟨year, month, day, hour, minute, second, nanos, offset⟩ := q
  obtain ⟨hdate, hh, hmi, hs, -, ho⟩ := hq
  dsimp only at hdate hh hmi hs ho
  subst ho
  obtain ⟨-, hm1, hm2, -, hd2⟩ := Gregorian.checkDate_eq_ok.1 hdate
  cases hpair : p.pairing with
  | monthsOfYear =>
    simp only [requested, hpair] at hr
    exact (fill_eq_ok_of_months hpair).2 ⟨_, hr, by simp [Pairing.base, Pairing.sub, truncate]⟩
  | daysOfMonth =>
    simp only [requested, hpair] at hr
    exact (fill_eq_ok_of_days hpair).2 ⟨_, _, hr, Gregorian.daysInMonth_eq_ok hm1 hm2,
      Int.ofNat_le.2 hd2, by simp [Pairing.base, Pairing.sub, truncate]⟩
  | secondsOfDay =>
    simp only [requested, hpair] at hr
    exact (fill_eq_ok_of_seconds hpair).2 ⟨_, _, hr, ClockTime.ofSeconds_seconds hh hmi hs,
      by simp [Pairing.base, Pairing.sub, truncate]⟩

/-- A single rank within the range of a pairing makes a pattern of that one rank. -/
theorem make_singleton {base sub : Resolution} {pairing : Pairing} {r : Int}
    (hpair : Pairing.ofUnits? base sub = some pairing)
    (hr : pairing.lowest ≤ r ∧ r ≤ pairing.highest) :
    ∃ p, make base sub [r] = .ok p ∧ p.pairing = pairing ∧ p.ranks = [r] := by
  unfold make
  simp only [hpair, List.cons_ne_nil, dite_false]
  split
  · rename_i h
    simp [List.mergeSort_singleton, firstRepeat?] at h
  · split
    · rename_i h
      simp [List.mergeSort_singleton, hr.1, hr.2] at h
    · exact ⟨_, rfl, rfl, List.mergeSort_singleton _⟩

/-- **A position of fixed ranks is filled in every base period, or is dead there**: only a day
that the month lacks is missing. -/
theorem fill_live_or_dead (p : FixedRanks) {j : Nat} (hj : j < p.ranks.length) {parts : TimeParts}
    (hm1 : 1 ≤ parts.month) (hm2 : parts.month ≤ 12) :
    (∃ q, p.fill j parts = .ok q) ∨ p.fill j parts = .error (.deadSubPeriod j) := by
  have hrank : p.ranks[j]? = some p.ranks[j] := List.getElem?_eq_getElem hj
  have hin := p.getElem_inRange hrank
  cases hpair : p.pairing with
  | monthsOfYear => exact .inl ⟨_, (fill_eq_ok_of_months hpair).2 ⟨_, hrank, rfl⟩⟩
  | daysOfMonth =>
    have hlast := Gregorian.daysInMonth_eq_ok (y := parts.year) hm1 hm2
    by_cases hle : p.ranks[j] ≤ Gregorian.monthLength (Gregorian.isLeap parts.year) parts.month
    · exact .inl ⟨_, (fill_eq_ok_of_days hpair).2 ⟨_, _, hrank, hlast, hle, rfl⟩⟩
    · right
      simp [fill, hrank, hpair, hlast, liftCalendar, Except.mapError, Int.lt_of_not_ge hle]
  | secondsOfDay =>
    simp only [hpair, Pairing.lowest, Pairing.highest] at hin
    exact .inl ⟨_, (fill_eq_ok_of_seconds hpair).2
      ⟨_, _, hrank, ClockTime.ofSeconds_eq_ok hin.1 (by omega), rfl⟩⟩

end FixedRanks

namespace SubPattern

/-! ### Sub-period patterns -/

/-- The bound on positions is the one each kind of pattern checks itself. -/
@[simp] theorem fill_fixed (p : FixedRanks) (j : Nat) (parts : TimeParts) :
    (fixed p).fill j parts = p.fill j parts := by
  unfold fill
  split
  · unfold FixedRanks.fill
    rw [List.getElem?_eq_none (by simpa [size] using ‹_›)]
    rfl
  · rfl

@[simp] theorem fill_dayRanking (p : DayRanking) (j : Nat) (parts : TimeParts) :
    (dayRanking p).fill j parts = p.fill j parts := by
  unfold fill
  split
  · unfold DayRanking.fill
    rw [List.getElem?_eq_none (by simpa [size] using ‹_›)]
    rfl
  · rfl

/-- Filling a position of a normal time at the start of its base period gives a normal time at the
start of its sub-period, in the same base period. -/
theorem fill_spec (s : SubPattern) {j : Nat} {parts q : TimeParts} (hparts : parts.Normal)
    (htr : parts.truncate s.baseUnit = parts) (h : s.fill j parts = .ok q) :
    q.Normal ∧ q.truncate s.subUnit = q ∧ q.truncate s.baseUnit = parts := by
  cases s with
  | fixed p =>
    obtain ⟨hq, hsub, hbase, -⟩ := p.lookup_fill hparts htr ((fill_fixed p j parts) ▸ h)
    exact ⟨hq, hsub, hbase⟩
  | dayRanking p =>
    obtain ⟨hq, hsub, hbase, -⟩ := p.lookup_fill hparts htr ((fill_dayRanking p j parts) ▸ h)
    exact ⟨hq, hsub, hbase⟩

/-- A position found is numbered from the start of its base period, whatever the adjustment. -/
theorem place_found {t : Int} {size : Nat} {v : Int} {j : Nat} {a : Adjustment} {idx : Int} :
    place t size v (.found j) a = .ok idx ↔
      Word.Fits (t * size) ∧ Word.Fits (t * size + j) ∧ t * size + j = idx := by
  unfold place
  simp [bind_eq_ok]

/-- Without adjustment, only a position found is placed. -/
theorem place_none_eq_ok {t : Int} {size : Nat} {v : Int} {l : Lookup} {idx : Int}
    (h : place t size v l .none = .ok idx) :
    ∃ j, l = .found j ∧ Word.Fits (t * size) ∧ Word.Fits (t * size + j) ∧ t * size + j = idx := by
  cases l with
  | found j => exact ⟨j, rfl, place_found.1 h⟩
  | missing next previous =>
    unfold place at h
    simp [bind_eq_ok] at h

/-- **The time at a position is located there**: filling a position of a normal time at the
start of its base period gives a normal time at the start of its sub-period, in the same base
period, located at the number of that position whatever the adjustment. -/
theorem locate_fill (s : SubPattern) {t : Int} {j : Nat} {parts q : TimeParts}
    (hparts : parts.Normal) (htr : parts.truncate s.baseUnit = parts) (h : s.fill j parts = .ok q)
    (ht : 0 ≤ t) (hfit : t * s.size + j ≤ Word.max) :
    q.Normal ∧ q.truncate s.subUnit = q ∧ q.truncate s.baseUnit = parts ∧
      ∀ a, s.locate t a q = .ok (t * s.size + j) := by
  have hbase : 0 ≤ t * s.size := Int.mul_nonneg ht (Int.natCast_nonneg s.size)
  have hplace : ∀ v a, place t s.size v (.found j) a = .ok (t * s.size + j) := fun v a =>
    place_found.2 ⟨⟨by simp only [Word.min]; omega, by omega⟩,
      ⟨by simp only [Word.min]; omega, hfit⟩, rfl⟩
  cases s with
  | fixed p =>
    obtain ⟨hq, hsub, hbase, v, hlook⟩ := p.lookup_fill hparts htr ((fill_fixed p j parts) ▸ h)
    refine ⟨hq, hsub, hbase, fun a => ?_⟩
    simp only [locate, lookup, hlook, except_pure_eq, except_ok_bind]
    exact hplace v a
  | dayRanking p =>
    obtain ⟨hq, hsub, hbase, v, hlook⟩ := p.lookup_fill hparts htr ((fill_dayRanking p j parts) ▸ h)
    refine ⟨hq, hsub, hbase, fun a => ?_⟩
    simp only [locate, lookup, hlook, except_ok_bind]
    exact hplace v a

/-- **A time located without adjustment is the time at its position**, cut down to the
sub-period: its position is one of the pattern's, and filling it into the time's base period
gives the time back. -/
theorem fill_locate (s : SubPattern) {t : Int} {q : TimeParts} (hq : q.Normal) {idx : Int}
    (h : s.locate t .none q = .ok idx) :
    ∃ j, j < s.size ∧ t * s.size + j = idx ∧
      s.fill j (q.truncate s.baseUnit) = .ok (q.truncate s.subUnit) := by
  obtain ⟨⟨v, l⟩, hlook, hplace⟩ := bind_eq_ok.1 h
  obtain ⟨j, rfl, -, -, hidx⟩ := place_none_eq_ok hplace
  cases s with
  | fixed p =>
    have hfill := p.fill_lookup hq (Except.ok.inj hlook)
    exact ⟨j, FixedRanks.lt_length_of_fill hfill, hidx, (fill_fixed p j _).trans hfill⟩
  | dayRanking p =>
    have hfill := p.fill_lookup hq hlook
    exact ⟨j, DayRanking.lt_length_of_fill hfill, hidx, (fill_dayRanking p j _).trans hfill⟩

end SubPattern

end Chronology
