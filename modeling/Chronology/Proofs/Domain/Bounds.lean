import Chronology.Proofs.Domain.Time
import Mathlib.Data.Nat.Find

/-!
# The bounds of a domain

A domain's indices run from 0 to `maxIndex`. The greatest index is found by a search down from
the top, the last position of the last base period whose indices fit a word, past the dead
positions; the first time of the domain by a search up from 0. This module proves what the two
searches find.

Up to the top, an index is live or dead and nothing else: its base index expands to a raw index
that fits the word, its base period is read as a time, and its position is filled in or is dead
there. So the greatest index is the last live index up to the top, and the first time is at the
first live index, as soon as one index up to the top is live; without a sub-period pattern every
index within the bounds is live. When every index up to the top is dead, as for the 30th day of
the month in a cycle that keeps only Februaries, the search down ends below zero: the greatest
index is `-1`, and the domain has neither a first nor a last time.

Both searches rest on one premise, `Layout.CycleFits`: one repetition of the cycle is no longer
than the raw indices up to the last one, so that the repetition ending there holds an ON period.
A pattern held in memory is shorter by far.

## Main definitions

* `Layout.CycleFits`: one repetition of the cycle fits below the last raw index.
* `Layout.topIndex`: where the search for the greatest index starts.

## Main results

* `Layout.decompose_live_or_dead`: up to the top, an index is live or dead.
* `Layout.maxIndex_spec`: the greatest index is the last live index up to the top, or `-1`.
* `TimeDomain.settleUp_eq_ok`: the search up stops at the first live index.
-/

namespace Chronology

namespace Gregorian

/-- The days before the year of the last day count fit a word. -/
theorem daysBeforeYear_lastYear : daysBeforeYear (yearOfDayCount Word.max.toNat) ≤ Word.max := by
  decide

/-- Every date of a year before the year of the last day count has a day count. -/
theorem dayCount_of_lt_lastYear {y : Int} {m d : Nat} (hdate : checkDate y m d = .ok ())
    (hy : y < yearOfDayCount Word.max.toNat) : ∃ n, dayCount y m d = .ok n := by
  obtain ⟨hy0, -, hm2, -, hd2⟩ := checkDate_eq_ok.1 hdate
  have hmonth := daysBeforeMonth_add_le hm2 hd2
  have hyear := daysBeforeMonth_le (isLeap y) hm2 (Nat.le_refl 12)
  have hlast := daysBeforeYear_add_le hy
  have hbefore := le_daysBeforeYear hy0
  have hmax := daysBeforeYear_lastYear
  rw [daysInYear] at hlast
  refine ⟨_, dayCount_eq_ok.2 ⟨hdate, ⟨?_, ?_⟩, rfl⟩⟩
  · simp only [Word.min]
    omega
  · omega

end Gregorian

/-- The first instant of a month counted from January of year zero. -/
theorem partsOfRaw_month (raw : Nat) :
    partsOfRaw raw .month = .ok { year := (raw / 12 : Nat), month := raw % 12 + 1 } := rfl

/-- The first instant of a year. -/
theorem partsOfRaw_year (raw : Nat) : partsOfRaw raw .year = .ok (TimeParts.ofYear raw) := rfl

namespace Layout

/-- One repetition of the cycle is no longer than the raw indices up to the last one, so that the
repetition ending at the last raw index holds an ON period. -/
def CycleFits (l : Layout) : Prop := ∀ c ∈ l.cycle, (c.length : Int) ≤ l.rawLimit + 1

/-- Where the search for the greatest index starts: the last position of the last base period, or
of the period before it when that position does not fit a word. -/
def topIndex (l : Layout) : Int :=
  match l.sub with
  | none => l.baseLimit
  | some s =>
    let scaled := l.baseLimit * s.size
    if Word.Fits (scaled + s.size - 1) then scaled + s.size - 1 else scaled - 1

theorem maxIndex_of_sub_none {l : Layout} (hs : l.sub = none) : l.maxIndex = l.topIndex := by
  simp only [maxIndex, topIndex, hs]

theorem maxIndex_of_sub_some {l : Layout} {s : SubPattern} (hs : l.sub = some s) :
    l.maxIndex = l.lastNotDead l.topIndex.toNat := by
  simp only [maxIndex, topIndex, hs]

/-! ### Base indices up to the last one -/

/-- The last countable period of every unit is a raw index from zero on. -/
theorem lastCountablePeriod_nonneg (b : Resolution) : 0 ≤ lastCountablePeriod b := by
  cases b <;> decide

theorem rawLimit_nonneg (l : Layout) : 0 ≤ l.rawLimit := by
  have hraw : 0 ≤ Word.max / (l.size : Int) :=
    Int.ediv_nonneg (by decide) (Int.natCast_nonneg _)
  have hcount := lastCountablePeriod_nonneg l.base
  unfold rawLimit
  dsimp only
  split <;> omega

theorem baseLimit_nonneg (l : Layout) : 0 ≤ l.baseLimit := by
  unfold baseLimit
  split
  · rename_i c _
    cases h : c.compressDown? l.rawLimit with
    | none => exact l.rawLimit_nonneg
    | some d =>
      obtain ⟨i, -, hc⟩ := c.compressDown?_eq_some h
      exact ((Cycle.compress_eq_ok c).1 hc).2.2 ▸ Int.natCast_nonneg _
  · exact l.rawLimit_nonneg

/-- **A base index up to the last one expands to a raw index up to the last one**: the repetition
that ends at the last raw index holds an ON time, the last base index is its dense number, and
expansion keeps the order. -/
theorem expandBase_of_le_baseLimit {l : Layout} (hfit : l.CycleFits) {b : Int} (hb : 0 ≤ b)
    (hbl : b ≤ l.baseLimit) : ∃ raw, l.expandBase b = .ok raw ∧ 0 ≤ raw ∧ raw ≤ l.rawLimit := by
  have hlimit := l.rawLimit_le
  have hdiv : Word.max / (l.size : Int) ≤ Word.max := Int.ediv_le_self _ (by decide)
  unfold baseLimit at hbl
  cases hc : l.cycle with
  | none =>
    simp only [hc] at hbl
    exact ⟨b, expandBase_of_cycle_none hc b, hb, hbl⟩
  | some c =>
    simp only [hc] at hbl
    obtain ⟨d, hd⟩ := c.compressDown?_isSome (hfit c hc)
    rw [hd, Option.getD_some] at hbl
    obtain ⟨i, -, hcomp⟩ := c.compressDown?_eq_some hd
    obtain ⟨raw, hraw, hle⟩ := c.expand_of_le (c.expand_compress hcomp (by omega)) hb hbl
    obtain ⟨-, -, rfl⟩ := (Cycle.expand_eq_ok c).1 hraw
    exact ⟨_, (expandBase_of_cycle_some hc).2 hraw, Int.natCast_nonneg _, by omega⟩

/-- A base index expands to an ON period of the cycle. -/
theorem isOn_of_expandBase {l : Layout} {c : Cycle} (hc : l.cycle = some c) {b raw : Int}
    (h : l.expandBase b = .ok raw) : c.isOn raw.toNat = true := by
  exact ((Cycle.compress_eq_ok c).1 (c.compress_expand ((expandBase_of_cycle_some hc).1 h))).2.1

/-- Up to the top, an index lies in a base period up to the last one. -/
theorem div_size_le_baseLimit (l : Layout) {i : Nat} (hi : i ≤ l.topIndex.toNat) :
    ((i / l.size : Nat) : Int) ≤ l.baseLimit := by
  have hbase := l.baseLimit_nonneg
  have hpos := l.size_pos
  have hlt : i < (l.baseLimit.toNat + 1) * l.size := by
    unfold topIndex at hi
    cases hs : l.sub with
    | none =>
      simp only [hs] at hi
      rw [size_of_sub_none hs]
      omega
    | some s =>
      simp only [hs] at hi
      rw [size_of_sub_some hs] at hpos ⊢
      have hmul : ((l.baseLimit.toNat * s.size : Nat) : Int) = l.baseLimit * s.size := by
        rw [Int.natCast_mul, Int.toNat_of_nonneg hbase]
      rw [Nat.add_mul, Nat.one_mul]
      split at hi <;> omega
  have := (Nat.div_lt_iff_lt_mul hpos).2 hlt
  omega

/-! ### Live and dead indices -/

theorem isDead_of_eq_error {l : Layout} {i j : Nat}
    (h : l.decompose i = .error (.pattern (.deadSubPeriod j))) : l.isDead i = true := by
  simp [isDead, h]

theorem decompose_of_isDead {l : Layout} {i : Nat} (h : l.isDead i = true) :
    ∃ j, l.decompose i = .error (.pattern (.deadSubPeriod j)) := by
  unfold isDead at h
  split at h
  · exact ⟨_, ‹_›⟩
  · cases h

/-- A live index is not dead. -/
theorem not_isDead_of_eq_ok {l : Layout} {i : Nat} {p : TimeParts} (h : l.decompose i = .ok p) :
    l.isDead i = false := by
  simp [isDead, h]

/-- A base period up to a countable one lies in a year before that of the last day count. The year
of a month is its raw index divided by twelve. -/
theorem partsOfRaw_year_lt {raw : Nat} {base : Resolution} {p : TimeParts}
    (hbase : base = .month ∨ base = .year) (h : partsOfRaw raw base = .ok p)
    (hraw : (raw : Int) ≤ lastCountablePeriod base) :
    p.year < Gregorian.yearOfDayCount Word.max.toNat := by
  rcases hbase with rfl | rfl
  · have hlast : lastCountablePeriod .month =
        ((Gregorian.yearOfDayCount Word.max.toNat : Int) - 1) * 12 + 11 := rfl
    rw [partsOfRaw_month, Except.ok.injEq] at h
    subst h
    rw [hlast] at hraw
    generalize Gregorian.yearOfDayCount Word.max.toNat = lastYear at hraw ⊢
    dsimp only
    omega
  · have hlast : lastCountablePeriod .year = (Gregorian.yearOfDayCount Word.max.toNat : Int) - 1 :=
      rfl
    rw [partsOfRaw_year, Except.ok.injEq] at h
    subst h
    rw [hlast] at hraw
    show (raw : Int) < _
    omega

/-- **A position of a base period up to the last one is filled in or dead**: fixed ranks miss only
days that a month lacks, and ranked weekdays are counted only in periods whose days have day counts.
The base period is a month or a year up to the last countable one. -/
theorem fillSub_live_or_dead {l : Layout} (hsub : ∀ s ∈ l.sub, s.baseUnit = l.base) {raw : Nat}
    (hraw : (raw : Int) ≤ l.rawLimit) {parts : TimeParts} (hparts : partsOfRaw raw l.base = .ok parts)
    {j : Nat} (hj : j < l.size) :
    (∃ q, l.fillSub j parts = .ok q) ∨ l.fillSub j parts = .error (.pattern (.deadSubPeriod j)) := by
  obtain ⟨p, hp, hnormal, -, -⟩ := partsOfRaw_spec raw l.base
  rw [hparts, Except.ok.injEq] at hp
  subst hp
  obtain ⟨hy0, hm1, hm2, -, -⟩ := Gregorian.checkDate_eq_ok.1 hnormal.date
  cases hs : l.sub with
  | none => exact .inl ⟨_, fillSub_of_sub_none hs _ _⟩
  | some s =>
    rw [size_of_sub_some hs] at hj
    rw [fillSub_of_sub_some hs]
    cases s with
    | fixed q =>
      rcases q.fill_live_or_dead hj hm1 hm2 with ⟨r, hr⟩ | hr
      · exact .inl ⟨r, by simpa using hr⟩
      · exact .inr (by simp [hr, liftPat, Except.mapError])
    | dayRanking q =>
      have hbase : q.period.unit = l.base := hsub _ hs
      have hcountable : (raw : Int) ≤ lastCountablePeriod l.base := by
        unfold rawLimit at hraw
        simp only [hs] at hraw
        exact Int.le_trans hraw (Int.min_le_right _ _)
      have hyear := partsOfRaw_year_lt (by cases hq : q.period <;> simp [← hbase, hq,
        RankingPeriod.unit]) hparts hcountable
      have hcount : ∀ m, 1 ≤ m → m ≤ 12 → ∃ n, Gregorian.dayCount parts.year m 1 = .ok n :=
        fun m hm1 hm2 =>
          Gregorian.dayCount_of_lt_lastYear (Gregorian.checkDate_month_start hy0 hm1 hm2) hyear
      rcases q.fill_live_or_dead hj hnormal.date hcount with ⟨r, hr⟩ | hr
      · exact .inl ⟨r, by simpa using hr⟩
      · exact .inr (by simp [hr, liftPat, Except.mapError])

/-- Up to the top, an index reaches its base period, which is read from a raw index up to the last
one: what is left is to fill in the position. -/
theorem decompose_eq_fillSub {l : Layout} (hfit : l.CycleFits) {i : Nat}
    (hi : i ≤ l.topIndex.toNat) :
    ∃ (raw : Nat) (parts : TimeParts), (raw : Int) ≤ l.rawLimit ∧
      partsOfRaw raw l.base = .ok parts ∧
      l.decompose i = l.fillSub (i % l.size) parts := by
  obtain ⟨raw, hexp, h0, hle⟩ :=
    expandBase_of_le_baseLimit hfit (Int.natCast_nonneg _) (l.div_size_le_baseLimit hi)
  obtain ⟨parts, hparts, -⟩ := partsOfRaw_spec raw.toNat l.base
  refine ⟨raw.toNat, parts, by omega, hparts, ?_⟩
  rw [decompose_eq, hexp, except_ok_bind, hparts, except_ok_bind]

/-- **Up to the top, an index is live or dead**, and nothing else: no overflow and no date out of
the calendar stops its decomposition. -/
theorem decompose_live_or_dead {l : Layout} (hsub : ∀ s ∈ l.sub, s.baseUnit = l.base)
    (hfit : l.CycleFits) {i : Nat} (hi : i ≤ l.topIndex.toNat) :
    (∃ p, l.decompose i = .ok p) ∨ l.isDead i = true := by
  obtain ⟨raw, parts, hraw, hparts, heq⟩ := decompose_eq_fillSub hfit hi
  rcases fillSub_live_or_dead hsub hraw hparts (Nat.mod_lt i l.size_pos) with hlive | hdead
  · exact .inl (heq ▸ hlive)
  · exact .inr (isDead_of_eq_error (heq ▸ hdead))

/-- Without sub-period pattern every index up to the top is live. -/
theorem decompose_live_of_sub_none {l : Layout} (hfit : l.CycleFits) (hs : l.sub = none)
    {i : Nat} (hi : i ≤ l.topIndex.toNat) : ∃ p, l.decompose i = .ok p := by
  obtain ⟨raw, parts, -, -, heq⟩ := decompose_eq_fillSub hfit hi
  exact ⟨parts, heq.trans (fillSub_of_sub_none hs _ _)⟩

/-! ### The greatest index -/

/-- **The search down from `n`** ends at `-1` when every index up to `n` is dead, and else at the
last index up to `n` that is not dead. By induction on `n`: at a dead index the search moves past it
to `n`. -/
theorem lastNotDead_spec (l : Layout) (n : Nat) :
    (l.lastNotDead n = -1 ∧ ∀ i ≤ n, l.isDead i = true) ∨
      ∃ m ≤ n, l.lastNotDead n = m ∧ l.isDead m = false ∧
        ∀ i, m < i → i ≤ n → l.isDead i = true := by
  induction n with
  | zero =>
    unfold lastNotDead
    by_cases h : l.isDead 0 = true
    · exact .inl ⟨if_pos h, fun i hi => by rwa [Nat.le_zero.1 hi]⟩
    · exact .inr ⟨0, Nat.le_refl 0, if_neg h, by simpa using h, fun i h1 h2 => by omega⟩
  | succ n ih =>
    unfold lastNotDead
    by_cases h : l.isDead (n + 1) = true
    · rw [if_pos h]
      rcases ih with ⟨hneg, hdead⟩ | ⟨m, hm, heq, hlive, hdead⟩
      · refine .inl ⟨hneg, fun i hi => ?_⟩
        rcases Nat.lt_or_eq_of_le hi with hi | rfl
        · exact hdead i (by omega)
        · exact h
      · refine .inr ⟨m, by omega, heq, hlive, fun i h1 h2 => ?_⟩
        rcases Nat.lt_or_eq_of_le h2 with h2 | rfl
        · exact hdead i h1 (by omega)
        · exact h
    · exact .inr ⟨n + 1, Nat.le_refl _, if_neg h, by simpa using h, fun i h1 h2 => by omega⟩

/-- **The greatest index is the last live index up to the top**, every index after it up to the top
being dead; or `-1`, when every index up to the top is dead. Without a pattern the search does not
run: the top itself is live. -/
theorem maxIndex_spec {l : Layout} (hsub : ∀ s ∈ l.sub, s.baseUnit = l.base)
    (hfit : l.CycleFits) :
    (l.maxIndex = -1 ∧ ∀ i : Nat, i ≤ l.topIndex.toNat → l.isDead i = true) ∨
      (0 ≤ l.maxIndex ∧ l.maxIndex.toNat ≤ l.topIndex.toNat ∧
        (∃ p, l.decompose l.maxIndex.toNat = .ok p) ∧
        ∀ i : Nat, l.maxIndex < i → i ≤ l.topIndex.toNat → l.isDead i = true) := by
  cases hs : l.sub with
  | none =>
    have htop : l.maxIndex = l.topIndex := maxIndex_of_sub_none hs
    have h0 : 0 ≤ l.topIndex := by
      simp only [topIndex, hs]
      exact l.baseLimit_nonneg
    refine .inr ⟨by omega, by omega, decompose_live_of_sub_none hfit hs (by omega),
      fun i h1 h2 => by omega⟩
  | some s =>
    rw [maxIndex_of_sub_some hs]
    rcases l.lastNotDead_spec l.topIndex.toNat with ⟨hneg, hdead⟩ | ⟨m, hm, heq, hlive, hdead⟩
    · exact .inl ⟨hneg, hdead⟩
    · rw [heq]
      have hlive' := (decompose_live_or_dead hsub hfit hm).resolve_right (by simp [hlive])
      exact .inr ⟨Int.natCast_nonneg m, by simpa using hm, by simpa using hlive',
        fun i h1 h2 => hdead i (by omega) h2⟩

/-- A layout none of whose indices decomposes has `-1` as its greatest index. -/
theorem maxIndex_of_none_live {l : Layout} (hsub : ∀ s ∈ l.sub, s.baseUnit = l.base)
    (hfit : l.CycleFits) (hnone : ∀ i p, l.decompose i ≠ .ok p) : l.maxIndex = -1 := by
  rcases maxIndex_spec hsub hfit with ⟨hneg, -⟩ | ⟨-, -, ⟨p, hp⟩, -⟩
  · exact hneg
  · exact absurd hp (hnone _ p)

end Layout

namespace TimeDomain

/-! ### The first and the last time -/

/-- An index within the bounds of a domain lies up to the top of its layout. -/
theorem toNat_le_topIndex {d : TimeDomain} (hfit : d.layout.CycleFits) {k : Int}
    (hk : 0 ≤ k ∧ k ≤ d.maxIndex) : k.toNat ≤ d.layout.topIndex.toNat := by
  have hmaxeq : d.maxIndex = d.layout.maxIndex := d.maxIndex_eq
  have hsub : ∀ s ∈ d.layout.sub, s.baseUnit = d.layout.base := d.sub_base
  rcases Layout.maxIndex_spec hsub hfit with ⟨hneg, -⟩ | ⟨-, hle, -⟩ <;> omega

/-- A live index within the bounds has a time. -/
theorem time_of_live {d : TimeDomain} {i : Int} (hb : 0 ≤ i ∧ i ≤ d.maxIndex) {p : TimeParts}
    (hp : d.layout.decompose i.toNat = .ok p) : ∃ t, d.time i = .ok t ∧ t.index = i := by
  obtain ⟨t, ht⟩ := time_of_unpack (unpack_eq_ok.2 ⟨hb, hp⟩)
  exact ⟨t, ht, (time_eq_ok ht).2⟩

theorem time_out_of_bounds {d : TimeDomain} {i : Int} (hb : ¬ (0 ≤ i ∧ i ≤ d.maxIndex)) :
    d.time i = .error (.outOfRange i d.maxIndex) := by
  unfold time
  rw [dif_neg hb]

theorem settleUp_out_of_bounds {d : TimeDomain} {i : Int} (hb : ¬ (0 ≤ i ∧ i ≤ d.maxIndex)) :
    d.settleUp i = .error (.outOfRange i d.maxIndex) := by
  rw [settleUp, dif_neg hb]

/-- **The search up passes dead indices and stops at the first live one.** At a dead index it moves
one up, which stays within the word below a live index. -/
theorem settleUp_eq_ok {d : TimeDomain} {i j : Int} (hi : 0 ≤ i) (hij : i ≤ j)
    (hj : j ≤ d.maxIndex) (hdead : ∀ k : Int, i ≤ k → k < j → d.layout.isDead k.toNat = true)
    {p : TimeParts} (hp : d.layout.decompose j.toNat = .ok p) : d.settleUp i = .ok j := by
  induction hn : (j - i).toNat generalizing i with
  | zero =>
    obtain rfl : i = j := by omega
    rw [settleUp, dif_pos ⟨hi, hj⟩, hp]
  | succ n ih =>
    obtain ⟨pos, hpos⟩ := Layout.decompose_of_isDead (hdead i (Int.le_refl i) (by omega))
    have hmax := d.maxIndex_le
    rw [settleUp, dif_pos ⟨hi, by omega⟩, hpos]
    dsimp only
    rw [if_neg (by omega)]
    exact ih (by omega) (by omega) (fun k hk hkj => hdead k (by omega) hkj) (by omega)

/-- The first time of a domain is the time of its first live index. -/
theorem minTime_eq_ok {d : TimeDomain} {j : Int} (hj0 : 0 ≤ j) (hj : j ≤ d.maxIndex)
    (hdead : ∀ k : Int, 0 ≤ k → k < j → d.layout.isDead k.toNat = true) {p : TimeParts}
    (hp : d.layout.decompose j.toNat = .ok p) : ∃ t, d.minTime = .ok t ∧ t.index = j := by
  obtain ⟨t, ht, hidx⟩ := time_of_live ⟨hj0, hj⟩ hp
  refine ⟨t, ?_, hidx⟩
  simp only [minTime, settle, settleUp_eq_ok (Int.le_refl 0) hj0 hj hdead hp, except_ok_bind, ht]

/-- A domain whose greatest index is below zero has neither a first nor a last time. -/
theorem minTime_maxTime_of_neg {d : TimeDomain} (h : d.maxIndex < 0) :
    (∃ e, d.minTime = .error e) ∧ ∃ e, d.maxTime = .error e := by
  have hout : ¬ (0 ≤ (0 : Int) ∧ (0 : Int) ≤ d.maxIndex) := by omega
  refine ⟨⟨.outOfRange 0 d.maxIndex, ?_⟩, ⟨_, time_out_of_bounds (by omega)⟩⟩
  simp only [minTime, settle, settleUp_out_of_bounds hout, except_error_bind]

/-- **A domain has a first and a last time exactly when an index up to its top is live.** Its
greatest index is then the last live index up to the top, whose time is the last time, and the first
time is the time of the first live index. Otherwise every index up to the top is dead: the greatest
index is `-1`, and there is neither a first nor a last time. The first live index lies at or below
the greatest, every index before it being dead. -/
theorem bounds_live_iff (d : TimeDomain) (hfit : d.layout.CycleFits) :
    ((∃ i : Nat, i ≤ d.layout.topIndex.toNat ∧ ∃ p, d.layout.decompose i = .ok p) ↔
      0 ≤ d.maxIndex) ∧
    (0 ≤ d.maxIndex →
      (∃ p, d.unpack d.maxIndex = .ok p) ∧ (∃ t, d.maxTime = .ok t ∧ t.index = d.maxIndex) ∧
      (∀ i : Nat, d.maxIndex < i → i ≤ d.layout.topIndex.toNat → d.layout.isDead i = true) ∧
      ∃ t, d.minTime = .ok t ∧ ∀ i : Nat, (i : Int) < t.index → d.layout.isDead i = true) ∧
    (d.maxIndex < 0 →
      d.maxIndex = -1 ∧ (∃ e, d.minTime = .error e) ∧ ∃ e, d.maxTime = .error e) := by
  have hmax : d.maxIndex = d.layout.maxIndex := d.maxIndex_eq
  have hsub : ∀ s ∈ d.layout.sub, s.baseUnit = d.layout.base := d.sub_base
  rcases Layout.maxIndex_spec hsub hfit with ⟨hneg, hdead⟩ | ⟨h0, htop, ⟨p, hp⟩, hafter⟩
  · rw [← hmax] at hneg
    refine ⟨⟨fun ⟨i, hi, q, hq⟩ => ?_, fun h => by omega⟩, fun h => by omega,
      fun _ => ⟨hneg, minTime_maxTime_of_neg (by omega)⟩⟩
    have hlive := Layout.not_isDead_of_eq_ok hq
    rw [hdead i hi] at hlive
    cases hlive
  · rw [← hmax] at h0 htop hp hafter
    classical
    have hex : ∃ j : Nat, ∃ q, d.layout.decompose j = .ok q := ⟨_, p, hp⟩
    have hle : Nat.find hex ≤ d.maxIndex.toNat := Nat.find_min' hex ⟨p, hp⟩
    have hbelow : ∀ k : Nat, k < Nat.find hex → d.layout.isDead k = true := fun k hk =>
      (Layout.decompose_live_or_dead hsub hfit (by omega)).resolve_left (Nat.find_min hex hk)
    obtain ⟨q, hq⟩ := Nat.find_spec hex
    obtain ⟨t, ht, hidx⟩ := minTime_eq_ok (Int.natCast_nonneg (Nat.find hex)) (by omega)
      (fun k _ hk => hbelow k.toNat (by omega)) (by rwa [Int.toNat_natCast])
    refine ⟨⟨fun _ => h0, fun _ => ⟨_, htop, p, hp⟩⟩, fun _ => ⟨⟨p, unpack_eq_ok.2
      ⟨⟨h0, Int.le_refl _⟩, hp⟩⟩, time_of_live ⟨h0, Int.le_refl _⟩ hp, hafter,
      ⟨t, ht, fun i hi => hbelow i (by omega)⟩⟩, fun h => by omega⟩

/-- The 10th and the 20th of each month: the first index is live, so the domain has a greatest index
from zero on and a first time. Index 0 is the 10th of January of year zero. -/
theorem tenthAndTwentieth_has_first_time :
    let d : TimeDomain := ⟨(Definition.ofBase .month).withSub
      (.fixed ⟨.daysOfMonth, [10, 20], by simp, by decide, by decide⟩), _, rfl,
      fun s hs => by cases hs; rfl⟩
    d.layout.CycleFits ∧ 0 ≤ d.maxIndex ∧ ∃ t, d.minTime = .ok t := by
  intro d
  have hfit : d.layout.CycleFits := fun c hc => by cases hc
  have hlive := (bounds_live_iff d hfit).1.1
    ⟨0, Nat.zero_le _, { year := 0, month := 1, day := 10 }, by decide⟩
  obtain ⟨t, ht, -⟩ := ((bounds_live_iff d hfit).2.1 hlive).2.2.2
  exact ⟨hfit, hlive, t, ht⟩

/-- **The 30th of February has no time**: the 30th day of the month, in a cycle of twelve months
that keeps only February. The domain is accepted, but every index is dead, so its greatest index is
`-1` and it has neither a first nor a last time. Every base period is a February, which has no 30th
day; only the data of the pattern is read, not its proofs. -/
theorem februaryThirtieth_has_no_time :
    ∃ c s d, Cycle.make [false, true, false, false, false, false, false, false, false, false,
        false, false] = .ok c ∧ FixedRanks.make .month .day [30] = .ok s ∧
      TimeDomain.make (((Definition.ofBase .month).withCycle c).withSub (.fixed s)) = .ok d ∧
      d.maxIndex = -1 ∧ (∃ e, d.minTime = .error e) ∧ ∃ e, d.maxTime = .error e := by
  obtain ⟨⟨pairing, ranks, h₁, h₂, h₃⟩, hs, hpair, hranks⟩ : ∃ s, FixedRanks.make .month .day [30] =
      .ok s ∧ s.pairing = .daysOfMonth ∧ s.ranks = [30] := FixedRanks.make_singleton rfl (by decide)
  dsimp only at hpair hranks
  subst hpair hranks
  let s : FixedRanks := ⟨.daysOfMonth, [30], h₁, h₂, h₃⟩
  let c : Cycle := ⟨[false, true, false, false, false, false, false, false, false, false, false,
    false], by decide⟩
  let l : Layout := (((Definition.ofBase .month).withCycle c).withSub (.fixed s)).layout
  have hsize : l.size = 1 := rfl
  have hnone : ∀ i p, l.decompose i ≠ .ok p := by
    intro i p hp
    rw [Layout.decompose_eq] at hp
    obtain ⟨raw, hraw, hp⟩ := bind_eq_ok.1 hp
    obtain ⟨parts, hparts, hp⟩ := bind_eq_ok.1 hp
    have hfeb : raw.toNat % 12 = 1 := by
      have key : ∀ k < 12, c.pattern.getD k false = true → k = 1 := by decide
      exact key _ (Nat.mod_lt _ (by decide)) (Layout.isOn_of_expandBase (l := l) rfl hraw)
    rw [show l.base = .month from rfl, partsOfRaw_month, Except.ok.injEq] at hparts
    subst hparts
    rw [hsize, Nat.mod_one] at hp
    have hfill : (SubPattern.fixed _).fill 0 _ = .ok p := liftPat_eq_ok.1 hp
    rw [SubPattern.fill_fixed] at hfill
    obtain ⟨rank, last, hrank, hlast, hle, -⟩ := (FixedRanks.fill_eq_ok_of_days rfl).1 hfill
    cases hrank
    have hlast' : Gregorian.daysInMonth (raw.toNat / 12 : Nat) 2 = .ok last := by
      simpa [hfeb] using hlast
    rw [Gregorian.daysInMonth_eq_ok (by decide) (by decide), Except.ok.injEq] at hlast'
    subst hlast'
    have hfebLength : ∀ leap, Gregorian.monthLength leap 2 ≤ 29 := by decide
    have := hfebLength (Gregorian.isLeap (raw.toNat / 12 : Nat))
    omega
  have hsub : ∀ s' ∈ l.sub, s'.baseUnit = l.base := by
    intro s' hs'
    cases hs'
    rfl
  have hfit : l.CycleFits := by
    intro c' hc'
    cases hc'
    have hlimit : l.rawLimit = Word.max := by
      simp only [Layout.rawLimit, hsize]
      rfl
    have hlength : c.length = 12 := rfl
    rw [hlimit, hlength]
    decide
  refine ⟨c, _, _, rfl, hs, rfl, ?_⟩
  have hneg : l.maxIndex = -1 := Layout.maxIndex_of_none_live hsub hfit hnone
  exact ⟨hneg, minTime_maxTime_of_neg (d := ⟨_, l.maxIndex, rfl, _⟩)
    (show l.maxIndex < 0 by omega)⟩

/-- **Every time that a domain hands out names a live index, and without a sub-period pattern every
index within the bounds has a time**: its base index expands within the word and its base period is
read. With a pattern, an index within the bounds has a time unless it is dead. Every index within
the bounds lies up to the top. -/
theorem time_within_bounds (d : TimeDomain) (hfit : d.layout.CycleFits) :
    (∀ t : TimeIndex, t.domain.unpack t.index = .ok t.parts) ∧
    (d.layout.sub = none → ∀ i, 0 ≤ i → i ≤ d.maxIndex → ∃ t, d.time i = .ok t ∧ t.index = i) ∧
    ∀ i, 0 ≤ i → i ≤ d.maxIndex →
      (∃ t, d.time i = .ok t ∧ t.index = i) ∨ d.layout.isDead i.toNat = true := by
  have hmax : d.maxIndex = d.layout.maxIndex := d.maxIndex_eq
  have hsub : ∀ s ∈ d.layout.sub, s.baseUnit = d.layout.base := d.sub_base
  have htop : ∀ i, 0 ≤ i → i ≤ d.maxIndex → i.toNat ≤ d.layout.topIndex.toNat := by
    intro i hi0 hi
    rcases Layout.maxIndex_spec hsub hfit with ⟨hneg, -⟩ | ⟨-, hle, -⟩ <;> omega
  refine ⟨TimeIndex.unpack_index, fun hs i hi0 hi => ?_, fun i hi0 hi => ?_⟩
  · obtain ⟨p, hp⟩ := Layout.decompose_live_of_sub_none hfit hs (htop i hi0 hi)
    exact time_of_live ⟨hi0, hi⟩ hp
  · rcases Layout.decompose_live_or_dead hsub hfit (htop i hi0 hi) with ⟨p, hp⟩ | hdead
    · exact .inl (time_of_live ⟨hi0, hi⟩ hp)
    · exact .inr hdead

/-- The fifth day of the work week has a time: a day domain with a cycle and no sub-period
pattern. -/
theorem workWeek_fifth_day_has_time :
    ∃ d, TimeDomain.make ((Definition.ofBase .day).withCycle Definition.workWeek) = .ok d ∧
      d.layout.CycleFits ∧ ∃ t, d.time 4 = .ok t ∧ t.index = 4 := by
  refine ⟨_, rfl, ?hfit, (time_within_bounds _ ?hfit).2.1 rfl 4 (by decide) (by decide)⟩
  intro c hc
  cases hc
  decide

end TimeDomain

end Chronology
