import Chronology.Proofs.Domain.Bounds
import Chronology.Proofs.Domain.Order
import Chronology.Proofs.Count
import Chronology.Proofs.Pattern.Position
import Mathlib.Data.Nat.Count

/-!
# Where packing lands before it settles

A time that the domain leaves out (an OFF period of the cycle, a value no position of the pattern
admits, the 31st of a short month) is packed, when asked, to the nearest index that has a time.
Packing first moves the base period of the time off an OFF period of the cycle, then locates the
time among the positions of its base period, and only then settles on a live index.

This module follows packing up to the settling. The index reached before it, `TimeDomain.target`,
splits the live indices of the domain exactly as their times lie around the time: going up, a
live index is at or after the target when its time is at or after the time; going down, it is at
or before the target when its time is at or before the time. What is left, settling, is a search
over dead indices.

## Main results

* `Layout.compressAdjusted_up`, `Layout.compressAdjusted_down`: moving off an OFF period keeps the
  order of base periods.
* `TimeDomain.splits_up`, `TimeDomain.splits_down`: a base index and a position within it split
  the live indices as their times lie around the time.
* `TimeDomain.target_up`, `TimeDomain.target_down`: the target is such a split.
-/

namespace Chronology

namespace Cycle

variable (c : Cycle)

/-- The raw times a whole number of repetitions apart are ON together. -/
theorem isOn_add_mul (s m : Nat) : c.isOn (s + c.length * m) = c.isOn s := by
  simp only [isOn, Nat.add_mul_mod_self_left]

/-- Some raw time at or after any other is ON. -/
theorem exists_isOn_ge (t : Nat) : ∃ s, t ≤ s ∧ c.isOn s = true := by
  obtain ⟨p, hp, hon⟩ := List.getElem_of_mem c.hasOn
  have hlen : p < c.length := hp
  refine ⟨p + c.length * t, Nat.le_trans (Nat.le_mul_of_pos_left t c.length_pos)
    (Nat.le_add_left _ p), ?_⟩
  rw [isOn_add_mul, isOn, Nat.mod_eq_of_lt hlen, List.getD_eq_getElem?_getD,
    List.getElem?_eq_getElem hp, Option.getD_some, hon]

/-- An ON time at or after `t` has a copy, a whole number of repetitions earlier, within one
repetition from `t`. -/
theorem isOn_window_up {t s : Nat} (hts : t ≤ s) (hs : c.isOn s = true) :
    ∃ k < c.length, c.isOn (t + k) = true ∧ t + k ≤ s := by
  have hsplit := Nat.div_add_mod (s - t) c.length
  refine ⟨(s - t) % c.length, Nat.mod_lt _ c.length_pos, ?_, by omega⟩
  rw [← isOn_add_mul c _ ((s - t) / c.length)]
  rw [show t + (s - t) % c.length + c.length * ((s - t) / c.length) = s by omega]
  exact hs

/-- An ON time at or before `t` has a copy, a whole number of repetitions later, within one
repetition before `t`. -/
theorem isOn_window_down {t s : Nat} (hst : s ≤ t) (hs : c.isOn s = true) :
    ∃ k < c.length, k ≤ t ∧ c.isOn (t - k) = true ∧ s ≤ t - k := by
  have hsplit := Nat.div_add_mod (t - s) c.length
  refine ⟨(t - s) % c.length, Nat.mod_lt _ c.length_pos, by omega, ?_, by omega⟩
  rw [show t - (t - s) % c.length = s + c.length * ((t - s) / c.length) by omega, isOn_add_mul]
  exact hs

/-- **Going up from `t` reaches the first ON time at or after it.** Every repetition holds an ON
time, and an ON time closer than the one found would have been found first. -/
theorem stepsUp_spec (t : Nat) :
    c.isOn (t + c.stepsUp t) = true ∧ ∀ s, t ≤ s → c.isOn s = true → t + c.stepsUp t ≤ s := by
  unfold stepsUp
  cases h : (List.range c.length).find? fun k => c.isOn (t + k) with
  | none =>
    obtain ⟨s, hts, hs⟩ := c.exists_isOn_ge t
    obtain ⟨k, hk, hon, -⟩ := c.isOn_window_up hts hs
    exact absurd hon (List.find?_eq_none.1 h k (List.mem_range.2 hk))
  | some k =>
    obtain ⟨hon, -, hbefore⟩ := List.find?_range_eq_some.1 h
    refine ⟨hon, fun s hts hs => ?_⟩
    obtain ⟨k', -, hon', hle⟩ := c.isOn_window_up hts hs
    have hkk : k ≤ k' := by
      refine Nat.not_lt.1 fun hlt => ?_
      have := hbefore k' hlt
      simp [hon'] at this
    rw [Option.getD_some]
    omega

/-- **Going down from `t` reaches the last ON time at or before it**, or finds none from zero on. An
ON time closer than the one found would have been found first. -/
theorem stepsDown?_spec (t : Nat) :
    match c.stepsDown? t with
    | some k => k ≤ t ∧ c.isOn (t - k) = true ∧ ∀ s ≤ t, c.isOn s = true → s ≤ t - k
    | none => ∀ s ≤ t, c.isOn s = false := by
  unfold stepsDown?
  cases h : (List.range c.length).find? fun k => decide (k ≤ t) && c.isOn (t - k) with
  | none =>
    intro s hst
    by_contra hs
    obtain ⟨k, hk, hkt, hon, -⟩ := c.isOn_window_down hst (by simpa using hs)
    have := List.find?_eq_none.1 h k (List.mem_range.2 hk)
    simp [hkt, hon] at this
  | some k =>
    obtain ⟨hfound, -, hbefore⟩ := List.find?_range_eq_some.1 h
    simp only [Bool.and_eq_true, decide_eq_true_eq] at hfound
    refine ⟨hfound.1, hfound.2, fun s hst hs => ?_⟩
    obtain ⟨k', -, hk't, hon', hle⟩ := c.isOn_window_down hst hs
    have hkk : k ≤ k' := by
      refine Nat.not_lt.1 fun hlt => ?_
      have := hbefore k' hlt
      simp [hk't, hon'] at this
    omega

/-- **Compression keeps the order of ON times.** -/
theorem compress_le_compress_iff {x y a b : Int} (hx : c.compress x = .ok a)
    (hy : c.compress y = .ok b) : a ≤ b ↔ x ≤ y := by
  obtain ⟨hx0, hxon, -⟩ := (compress_eq_ok c).1 hx
  obtain ⟨hy0, hyon, -⟩ := (compress_eq_ok c).1 hy
  rw [compress_eq_count c hx0, if_pos hxon, Except.ok.injEq] at hx
  rw [compress_eq_count c hy0, if_pos hyon, Except.ok.injEq] at hy
  subst hx hy
  constructor
  · intro hab
    refine Int.not_lt.1 fun hlt => ?_
    have := Nat.count_strict_mono (p := fun s => c.isOn s = true) hyon (show y.toNat < x.toNat by omega)
    omega
  · intro hxy
    exact Int.ofNat_le.2 (Nat.count_monotone _ (show x.toNat ≤ y.toNat by omega))

end Cycle

namespace Layout

variable {l : Layout} {raw b : Int} {moved : Bool}

/-- A base index that expands is the compression of its raw index, which is ON. -/
theorem compress_of_expandBase {c : Cycle} (hc : l.cycle = some c) {b' raw' : Int}
    (h : l.expandBase b' = .ok raw') : c.compress raw' = .ok b' :=
  c.compress_expand ((expandBase_of_cycle_some hc).1 h)

/-- **Going up, a raw index moves to the first kept base period at or after it.** A base index that
expands is at least the one found exactly when its raw index is at least the one asked for; a raw
index is moved only when its base period is not kept, and expands back otherwise. Without a cycle
base indices are raw indices. -/
theorem compressAdjusted_up (h0 : 0 ≤ raw) (h : l.compressAdjusted raw .up = .ok (b, moved)) :
    0 ≤ b ∧ (moved = false → (raw ≤ Word.max → l.expandBase b = .ok raw) ∧
      ∀ raw', l.expandBase b = .ok raw' → raw' = raw) ∧
      ∀ b' raw', l.expandBase b' = .ok raw' → (b ≤ b' ↔ raw ≤ raw') ∧ (moved = true → raw' ≠ raw) := by
  refine ⟨compressAdjusted_nonneg h0 h, ?_, fun b' raw' he => ⟨?_, ?_⟩⟩
  · rintro rfl
    obtain ⟨hexp, huniq⟩ := compressAdjusted_unmoved h
    exact ⟨fun hmax => hexp hmax h0, huniq⟩
  · rcases compressAdjusted_eq_ok.1 h with ⟨hc, rfl, -⟩ | ⟨c, hc, -, ⟨-, hcomp, -⟩ |
      ⟨-, ⟨-, -, hcomp⟩ | ⟨k, hdown, -⟩, -⟩⟩
    · rw [expandBase_of_cycle_none hc, Except.ok.injEq] at he
      rw [he]
    · exact c.compress_le_compress_iff hcomp (compress_of_expandBase hc he)
    · have hcomp' := compress_of_expandBase hc he
      obtain ⟨hraw'0, hon', -⟩ := (Cycle.compress_eq_ok c).1 hcomp'
      have hfirst := (c.stepsUp_spec raw.toNat).2 raw'.toNat
      rw [c.compress_le_compress_iff hcomp hcomp']
      constructor
      · intro hle
        omega
      · intro hle
        have := hfirst (by omega) hon'
        omega
    · cases hdown
  · rintro rfl
    exact compressAdjusted_moved h he

/-- **Going down, a raw index moves to the last kept base period at or before it.** A base index
that expands is at most the one found exactly when its raw index is at most the one asked for; a raw
index is moved only when its base period is not kept, and expands back otherwise. Without a cycle
base indices are raw indices. -/
theorem compressAdjusted_down (h0 : 0 ≤ raw) (h : l.compressAdjusted raw .down = .ok (b, moved)) :
    0 ≤ b ∧ (moved = false → (raw ≤ Word.max → l.expandBase b = .ok raw) ∧
      ∀ raw', l.expandBase b = .ok raw' → raw' = raw) ∧
      ∀ b' raw', l.expandBase b' = .ok raw' → (b' ≤ b ↔ raw' ≤ raw) ∧ (moved = true → raw' ≠ raw) := by
  refine ⟨compressAdjusted_nonneg h0 h, ?_, fun b' raw' he => ⟨?_, ?_⟩⟩
  · rintro rfl
    obtain ⟨hexp, huniq⟩ := compressAdjusted_unmoved h
    exact ⟨fun hmax => hexp hmax h0, huniq⟩
  · rcases compressAdjusted_eq_ok.1 h with ⟨hc, rfl, -⟩ | ⟨c, hc, -, ⟨-, hcomp, -⟩ |
      ⟨-, ⟨hup, -⟩ | ⟨k, -, hk, hcomp⟩, -⟩⟩
    · rw [expandBase_of_cycle_none hc, Except.ok.injEq] at he
      rw [he]
    · exact c.compress_le_compress_iff (compress_of_expandBase hc he) hcomp
    · cases hup
    · have hspec := c.stepsDown?_spec raw.toNat
      rw [hk] at hspec
      obtain ⟨hkle, -, hlast⟩ := hspec
      have hcomp' := compress_of_expandBase hc he
      obtain ⟨hraw'0, hon', -⟩ := (Cycle.compress_eq_ok c).1 hcomp'
      rw [c.compress_le_compress_iff hcomp' hcomp]
      constructor
      · intro hle
        omega
      · intro hle
        have := hlast raw'.toNat (by omega) hon'
        omega
  · rintro rfl
    exact compressAdjusted_moved h he

/-- Going up succeeds from a raw index at or below one that a base index expands to. The next ON
time is at most the one the base index expands to, so it fits. -/
theorem compressAdjusted_up_ok (h0 : 0 ≤ raw) {b' raw' : Int} (he : l.expandBase b' = .ok raw')
    (hle : raw ≤ raw') : ∃ b moved, l.compressAdjusted raw .up = .ok (b, moved) := by
  cases hc : l.cycle with
  | none => exact ⟨raw, false, compressAdjusted_eq_ok.2 (.inl ⟨hc, rfl, rfl⟩)⟩
  | some c =>
    cases hon : c.isOn raw.toNat with
    | true =>
      obtain ⟨b, hb⟩ : ∃ b, c.compress raw = .ok b := ⟨_, (Cycle.compress_eq_ok c).2 ⟨h0, hon, rfl⟩⟩
      exact ⟨b, false, compressAdjusted_eq_ok.2 (.inr ⟨c, hc, h0, .inl ⟨hon, hb, rfl⟩⟩)⟩
    | false =>
      have hexp := (expandBase_of_cycle_some hc).1 he
      obtain ⟨-, hfit', -⟩ := (Cycle.expand_eq_ok c).1 hexp
      obtain ⟨-, hon', -⟩ := (Cycle.compress_eq_ok c).1 (c.compress_expand hexp)
      obtain ⟨hnext, hfirst⟩ := c.stepsUp_spec raw.toNat
      have hle' := hfirst raw'.toNat (by omega) hon'
      have hmax : raw + c.stepsUp raw.toNat ≤ Word.max := by
        have := hfit'.2
        omega
      have hnat : (raw + c.stepsUp raw.toNat).toNat = raw.toNat + c.stepsUp raw.toNat := by omega
      obtain ⟨b, hb⟩ : ∃ b, c.compress (raw + c.stepsUp raw.toNat) = .ok b :=
        ⟨_, (Cycle.compress_eq_ok c).2 ⟨by omega, by rw [hnat]; exact hnext, rfl⟩⟩
      exact ⟨b, true, compressAdjusted_eq_ok.2 (.inr ⟨c, hc, h0, .inr ⟨hon, .inl ⟨rfl, hmax, hb⟩, rfl⟩⟩)⟩

/-- Going down succeeds from a raw index at or above one that a base index expands to. The ON time
the base index expands to lies below. -/
theorem compressAdjusted_down_ok (h0 : 0 ≤ raw) {b' raw' : Int}
    (he : l.expandBase b' = .ok raw') (hle : raw' ≤ raw) :
    ∃ b moved, l.compressAdjusted raw .down = .ok (b, moved) := by
  cases hc : l.cycle with
  | none => exact ⟨raw, false, compressAdjusted_eq_ok.2 (.inl ⟨hc, rfl, rfl⟩)⟩
  | some c =>
    cases hon : c.isOn raw.toNat with
    | true =>
      obtain ⟨b, hb⟩ : ∃ b, c.compress raw = .ok b := ⟨_, (Cycle.compress_eq_ok c).2 ⟨h0, hon, rfl⟩⟩
      exact ⟨b, false, compressAdjusted_eq_ok.2 (.inr ⟨c, hc, h0, .inl ⟨hon, hb, rfl⟩⟩)⟩
    | false =>
      obtain ⟨hraw'0, hon', -⟩ := (Cycle.compress_eq_ok c).1 (compress_of_expandBase hc he)
      have hspec := c.stepsDown?_spec raw.toNat
      cases hk : c.stepsDown? raw.toNat with
      | none =>
        rw [hk] at hspec
        have hoff := hspec raw'.toNat (by omega)
        rw [hon'] at hoff
        cases hoff
      | some k =>
        rw [hk] at hspec
        obtain ⟨hkle, honk, -⟩ := hspec
        have hnat : (raw - k).toNat = raw.toNat - k := by omega
        obtain ⟨b, hb⟩ : ∃ b, c.compress (raw - k) = .ok b :=
          ⟨_, (Cycle.compress_eq_ok c).2 ⟨by omega, by rw [hnat]; exact honk, rfl⟩⟩
        exact ⟨b, true, compressAdjusted_eq_ok.2 (.inr ⟨c, hc, h0, .inr ⟨hon, .inr ⟨k, rfl, hk, hb⟩, rfl⟩⟩)⟩

end Layout

/-! ### Times within a base period -/

open TimeParts

namespace FixedRanks

/-- Times of one base period that start their sub-periods are in the order of the ranks they ask
for. -/
theorem stamp_le_iff_requested (p : FixedRanks) {q q' : TimeParts} (hq : q.Normal)
    (hq' : q'.Normal) (htr : q.truncate p.pairing.sub = q) (htr' : q'.truncate p.pairing.sub = q')
    (hbase : q.truncate p.pairing.base = q'.truncate p.pairing.base) :
    q.stamp ≤ q'.stamp ↔ p.requested q ≤ p.requested q' := by
  obtain ⟨hm, hd, hh, hmi, hs, -⟩ := hq.digits
  obtain ⟨hm', hd', hh', hmi', hs', -⟩ := hq'.digits
  rw [← htr, ← htr']
  cases hpair : p.pairing with
  | monthsOfYear =>
    simp only [hpair, Pairing.base, Pairing.sub, truncate, TimeParts.mk.injEq] at hbase ⊢
    simp only [requested, hpair, stamp]
    omega
  | daysOfMonth =>
    simp only [hpair, Pairing.base, Pairing.sub, truncate, TimeParts.mk.injEq] at hbase ⊢
    simp only [requested, hpair, stamp]
    omega
  | secondsOfDay =>
    simp only [hpair, Pairing.base, Pairing.sub, truncate, TimeParts.mk.injEq] at hbase ⊢
    simp only [requested, hpair, stamp, ClockTime.seconds]
    omega

end FixedRanks

namespace DayRanking

/-- Days of one period are in the order of their days of the month, or of the year. Days of the year
follow the order of months and days, both ways. -/
theorem stamp_le_iff_requestedDay (p : DayRanking) {q q' : TimeParts} (hq : q.Normal)
    (hq' : q'.Normal) (htr : q.truncate .day = q) (htr' : q'.truncate .day = q')
    (hbase : q.truncate p.period.unit = q'.truncate p.period.unit) {n n' : Nat}
    (hn : p.RequestedDay q n) (hn' : p.RequestedDay q' n') : q.stamp ≤ q'.stamp ↔ n ≤ n' := by
  obtain ⟨hm, hd, hh, hmi, hs, -⟩ := hq.digits
  obtain ⟨hm', hd', hh', hmi', hs', -⟩ := hq'.digits
  rw [← htr, ← htr']
  unfold RequestedDay at hn hn'
  cases hper : p.period with
  | month =>
    simp only [hper] at hn hn'
    simp only [hper, RankingPeriod.unit, truncate, TimeParts.mk.injEq] at hbase
    simp only [truncate, stamp]
    omega
  | year =>
    simp only [hper] at hn hn'
    simp only [hper, RankingPeriod.unit, truncate, TimeParts.mk.injEq] at hbase
    obtain ⟨hdate, rfl⟩ := Gregorian.dayOfYear_eq_ok.1 hn
    obtain ⟨hdate', rfl⟩ := Gregorian.dayOfYear_eq_ok.1 hn'
    obtain ⟨-, -, hm2, hd1, hd2⟩ := Gregorian.checkDate_eq_ok.1 hdate
    obtain ⟨-, -, hm2', hd1', hd2'⟩ := Gregorian.checkDate_eq_ok.1 hdate'
    rw [hbase.1] at hd2 ⊢
    simp only [truncate, stamp]
    constructor
    · intro hle
      by_cases heq : q.month = q'.month ∧ q.day = q'.day
      · rw [heq.1, heq.2]
      · have := Gregorian.dayOfYear_lt hm2 hd2 hm2' hd1' (by omega)
        omega
    · intro hle
      refine Int.not_lt.1 fun hlt => ?_
      have := Gregorian.dayOfYear_lt hm2' hd2' hm2 hd1 (by omega)
      omega

end DayRanking

namespace SubPattern

/-- **Times of one base period are in the order of the values they ask for**, when each starts
its sub-period. -/
theorem stamp_le_iff_of_requests (s : SubPattern) {q q' : TimeParts} (hq : q.Normal)
    (hq' : q'.Normal) (htr : q.truncate s.subUnit = q) (htr' : q'.truncate s.subUnit = q')
    (hbase : q.truncate s.baseUnit = q'.truncate s.baseUnit) {x x' : Int} (hx : s.Requests q x)
    (hx' : s.Requests q' x') : q.stamp ≤ q'.stamp ↔ x ≤ x' := by
  cases s with
  | fixed p =>
    have hx : x = p.requested q := hx
    have hx' : x' = p.requested q' := hx'
    rw [hx, hx']
    exact p.stamp_le_iff_requested hq hq' htr htr' hbase
  | dayRanking p =>
    obtain ⟨n, hn, rfl⟩ := hx
    obtain ⟨n', hn', rfl⟩ := hx'
    rw [Int.ofNat_le]
    exact p.stamp_le_iff_requestedDay hq hq' htr htr' hbase hn hn'

/-- A normal time asks a ranking for a day other than 0. -/
theorem requests_ne_zero {s : SubPattern} {q : TimeParts} (hq : q.Normal) {v : Int}
    (hv : s.Requests q v) : ∀ p, s = .dayRanking p → v ≠ 0 := by
  rintro p rfl
  obtain ⟨n, hn, rfl⟩ := hv
  obtain ⟨-, -, -, hd1, -⟩ := Gregorian.checkDate_eq_ok.1 hq.date
  unfold DayRanking.RequestedDay at hn
  cases hper : p.period with
  | month =>
    simp only [hper] at hn
    omega
  | year =>
    simp only [hper] at hn
    obtain ⟨-, rfl⟩ := Gregorian.dayOfYear_eq_ok.1 hn
    omega

end SubPattern

/-! ### Packing in steps -/

namespace Layout

/-- Two base indices that expand to one raw index are one. -/
theorem expandBase_inj {l : Layout} {b b' raw : Int} (h : l.expandBase b = .ok raw)
    (h' : l.expandBase b' = .ok raw) : b = b' := by
  rcases Int.lt_trichotomy b b' with hlt | heq | hgt
  · exact absurd (expandBase_lt h h' hlt) (Int.lt_irrefl raw)
  · exact heq
  · exact absurd (expandBase_lt h' h hgt) (Int.lt_irrefl raw)

end Layout

namespace SubPattern

/-- The raw index of a base period reads no field below the sub-periods. -/
theorem rawIndex_truncate_subUnit (s : SubPattern) (p : TimeParts) :
    rawIndex (p.truncate s.subUnit) s.baseUnit = rawIndex p s.baseUnit := by
  cases s with
  | fixed q =>
    cases hpair : q.pairing <;> simp only [subUnit, baseUnit, hpair, Pairing.sub, Pairing.base] <;>
      rfl
  | dayRanking q =>
    cases hper : q.period <;> simp only [subUnit, baseUnit, hper, RankingPeriod.unit] <;> rfl

end SubPattern

/-- Positions of an earlier base period come before those of a later one. -/
theorem mul_add_le_mul_add {n : Nat} {b b' j k : Int} (hj : j ≤ n) (hk : 0 ≤ k) (hb : b < b') :
    b * n + j ≤ b' * n + k := by
  have : (b + 1) * n ≤ b' * n := Int.mul_le_mul_of_nonneg_right (by omega) (Int.natCast_nonneg n)
  rw [Int.add_mul, Int.one_mul] at this
  omega

/-- A time of an earlier base period comes first. -/
theorem stamp_lt_of_rawIndex_lt {p q : TimeParts} (hp : p.Normal) (hq : q.Normal) {r : Resolution}
    {a b : Int} (ha : rawIndex p r = .ok a) (hb : rawIndex q r = .ok b) (hlt : a < b) :
    p.stamp < q.stamp :=
  Int.not_le.1 fun hle => absurd (rawIndex_le_of_stamp_le hq hp hle hb ha) (Int.not_le.2 hlt)

namespace TimeDomain

variable {d : TimeDomain}

/-- The index a time is moved to before dead indices are passed: its base index without pattern;
else the first position going up, or the last going down, of a base period the cycle moved it to;
else the number `locate` gives its sub-period. -/
def target (d : TimeDomain) (p : TimeParts) (b : Int) (moved : Bool) (a : Adjustment) :
    Except TimeError Int :=
  match d.layout.sub with
  | none => pure b
  | some s =>
    if moved then
      Word.within (.overflow .subPeriodAdjustment)
        (b * s.size + (if a = .down then (s.size : Int) - 1 else 0))
    else liftPat (s.locate b a p)

/-- Without pattern the target is the base index. -/
theorem target_of_sub_none (hs : d.layout.sub = none) (p : TimeParts) (b : Int) (moved : Bool)
    (a : Adjustment) : d.target p b moved a = .ok b := by
  simp [target, hs]

/-- Without pattern an index within the bounds is live, so settling it checks the bounds. -/
theorem settle_of_sub_none (hfit : d.layout.CycleFits) (hs : d.layout.sub = none) (b : Int)
    (a : Adjustment) : d.settle b a = d.valid b >>= fun _ => pure b := by
  by_cases hb : 0 ≤ b ∧ b ≤ d.maxIndex
  · have hmax : d.maxIndex = d.layout.topIndex :=
      d.maxIndex_eq.trans (Layout.maxIndex_of_sub_none hs)
    obtain ⟨p, hp⟩ := Layout.decompose_live_of_sub_none hfit hs (i := b.toNat) (by omega)
    rw [settle_live hb hp a, valid_eq_ok.2 hb]
    rfl
  · have hvalid : d.valid b = .error (.outOfRange b d.maxIndex) := by simp [valid, hb]
    rw [hvalid]
    cases a with
    | none => simp only [settle, hvalid, except_error_bind]
    | up => exact settleUp_out_of_bounds hb
    | down =>
      rw [settle, settleDown, dif_neg hb]
      rfl

/-- **Packing in steps**: normalise the time, count its base periods, compress them through the
cycle, move to the target index and settle there. -/
theorem pack_eq_target (hfit : d.layout.CycleFits) (parts : TimeParts) (a : Adjustment) :
    d.pack parts a = (do
      let p ← parts.normalize
      let raw ← rawIndex p d.layout.base
      let (b, moved) ← d.layout.compressAdjusted raw a
      let t ← d.target p b moved a
      d.settle t a) := by
  unfold pack target
  refine congrArg (parts.normalize >>= ·) (funext fun p => ?_)
  refine congrArg (rawIndex p d.layout.base >>= ·) (funext fun raw => ?_)
  refine congrArg (d.layout.compressAdjusted raw a >>= ·) (funext fun bm => ?_)
  obtain ⟨b, moved⟩ := bm
  cases hs : d.layout.sub with
  | none =>
    show (d.valid b >>= fun _ => pure b) = (pure b >>= fun t => d.settle t a)
    rw [pure_bind, settle_of_sub_none hfit hs]
  | some s => cases moved <;> rfl

/-- **Packing reads a time only down to the domain's resolution**: a time packs as its normal
form cut down to that resolution. -/
theorem pack_truncate (d : TimeDomain) {parts p : TimeParts} (hp : parts.normalize = .ok p)
    (a : Adjustment) : d.pack parts a = d.pack (p.truncate d.resolution) a := by
  have hn := normal_of_normalize hp
  unfold pack
  rw [hp, normalize_of_normal (hn.truncate _), except_ok_bind, except_ok_bind]
  cases hs : d.layout.sub with
  | none =>
    have hres : d.resolution = d.layout.base := Layout.resolution_of_sub_none hs
    rw [hres, rawIndex_truncate p _ hn.nanos_lt]
  | some s =>
    have hres : d.resolution = s.subUnit := Layout.resolution_of_sub_some hs
    have hsb : s.baseUnit = d.layout.base := d.sub_base s hs
    rw [hres, ← hsb, SubPattern.rawIndex_truncate_subUnit, hsb]
    simp only [SubPattern.locate, SubPattern.lookup_truncate]

/-- **What the time of an index is made of**: the index is position `k` of base period `b`, which
expands to the raw index of the time, up to the last one; the time is normal, starts its step, and
is position `k` filled into the start of its base period. The index lies up to the top, so its base
period is up to the last one, and the time lies in the base period that starts at `parts`. -/
theorem unpack_parts (hfit : d.layout.CycleFits) {i : Int} {q : TimeParts}
    (h : d.unpack i = .ok q) :
    ∃ (b k : Nat) (raw : Int), k < d.layout.size ∧ i = b * d.layout.size + k ∧
      d.layout.expandBase b = .ok raw ∧ 0 ≤ raw ∧ raw ≤ d.layout.rawLimit ∧ raw ≤ Word.max ∧
      rawIndex q d.layout.base = .ok raw ∧ q.Normal ∧ q.truncate d.resolution = q ∧
      d.layout.fillSub k (q.truncate d.layout.base) = .ok q := by
  obtain ⟨hi, hdec⟩ := unpack_eq_ok.1 h
  obtain ⟨hq, htrunc, -⟩ := pack_of_unpack h
  have hmax := d.maxIndex_le
  have hbl := d.layout.div_size_le_baseLimit (toNat_le_topIndex hfit hi)
  obtain ⟨raw, hexp, hraw0, hrawl⟩ :=
    Layout.expandBase_of_le_baseLimit hfit (Int.natCast_nonneg _) hbl
  have hlimit := d.layout.rawLimit_le
  have hdiv : Word.max / (d.layout.size : Int) ≤ Word.max := Int.ediv_le_self _ (by decide)
  rw [Layout.decompose_eq, hexp, except_ok_bind] at hdec
  obtain ⟨parts, hparts, hfill⟩ := bind_eq_ok.1 hdec
  obtain ⟨parts', hparts', hnormal, htr, hcount⟩ := partsOfRaw_spec raw.toNat d.layout.base
  rw [hparts'] at hparts
  cases hparts
  have hbase : q.truncate d.layout.base = parts :=
    (Layout.fillSub_spec d.sub_base hnormal htr hfill).2
  refine ⟨i.toNat / d.layout.size, i.toNat % d.layout.size, raw, Nat.mod_lt _ d.layout.size_pos,
    ?_, hexp, hraw0, hrawl, by omega, ?_, hq, htrunc, by rw [hbase]; exact hfill⟩
  · have := Nat.div_add_mod' i.toNat d.layout.size
    omega
  · rw [← rawIndex_truncate q _ hq.nanos_lt, hbase, hcount (by omega), Int.toNat_of_nonneg hraw0]

/-- Without pattern a time that starts its step is the only time of its base period. -/
theorem fillSub_of_sub_none_eq (hs : d.layout.sub = none) {r q : TimeParts}
    (htr : r.truncate d.resolution = r) {k : Nat}
    (hfill : d.layout.fillSub k (r.truncate d.layout.base) = .ok q) : q = r := by
  rw [Layout.fillSub_of_sub_none hs, Except.ok.injEq, ← Layout.resolution_of_sub_none hs] at hfill
  exact hfill.symm.trans htr

/-- **A time filled into the base period of `r` compares with `r` as the value its position admits
with the value `r` asks for.** -/
theorem fill_compare {s : SubPattern} (hs : d.layout.sub = some s) {r q : TimeParts}
    (hr : r.Normal) (htr : r.truncate d.resolution = r) {v : Int} (hv : s.Requests r v) {k : Nat}
    (hfill : d.layout.fillSub k (r.truncate d.layout.base) = .ok q) :
    ∃ x, s.Admits r k x ∧ (r.stamp ≤ q.stamp ↔ v ≤ x) ∧ (q.stamp ≤ r.stamp ↔ x ≤ v) := by
  have hsb : s.baseUnit = d.layout.base := d.sub_base s hs
  have hres : d.resolution = s.subUnit := Layout.resolution_of_sub_some hs
  rw [Layout.fillSub_of_sub_some hs, liftPat_eq_ok, ← hsb] at hfill
  have hnormal := hr.truncate s.baseUnit
  obtain ⟨hq, htrq, hbase⟩ :=
    s.fill_spec hnormal (truncate_truncate r (Nat.le_refl _)) hfill
  have hmonth : s.baseUnit = .month → 1 ≤ (r.truncate s.baseUnit).month ∧
      (r.truncate s.baseUnit).month ≤ 12 := fun _ => by
    obtain ⟨-, hm1, hm2, -, -⟩ := Gregorian.checkDate_eq_ok.1 hnormal.date
    exact ⟨hm1, hm2⟩
  obtain ⟨x, hx, hreq⟩ := SubPattern.admits_of_fill hmonth hfill
  rw [hres] at htr
  exact ⟨x, SubPattern.admits_truncate.1 hx, s.stamp_le_iff_of_requests hr hq htr htrq hbase.symm
    hv hreq, s.stamp_le_iff_of_requests hq hr htrq htr hbase hreq hv⟩

/-! ### The target splits the live indices -/

/-- **Going up, the live indices split at a position.** Let base index `b` be at least those whose
raw index is below that of `r` and at most the others, and let `j` be the position of it at which
the times of the base period of `r` reach `r`, or 0 when `b` is a later base period. Then a live
index is at least `b * size + j` exactly when its time is at or after `r`. An index of an earlier
base period has an earlier time and a smaller index; in the base period of `r` the position decides;
a later base period has a later time and an index not below, and is `b` itself only when the time
moved to its first position. -/
theorem splits_up (hfit : d.layout.CycleFits) {r : TimeParts} (hr : r.Normal) {raw b : Int}
    {j : Nat} (hraw : rawIndex r d.layout.base = .ok raw)
    (hord : ∀ b' raw', d.layout.expandBase b' = .ok raw' → (b ≤ b' ↔ raw ≤ raw'))
    (hj : j ≤ d.layout.size)
    (hnext : j ≠ 0 → ∀ raw', d.layout.expandBase b = .ok raw' → raw' = raw)
    (hsame : ∀ b' k q, d.layout.expandBase b' = .ok raw → raw ≤ Word.max → k < d.layout.size →
      d.layout.fillSub k (r.truncate d.layout.base) = .ok q → b' = b ∧ (r.stamp ≤ q.stamp ↔ j ≤ k))
    {i : Int} {q : TimeParts} (hi : d.unpack i = .ok q) :
    r.stamp ≤ q.stamp ↔ b * d.layout.size + j ≤ i := by
  obtain ⟨bi, k, Ri, hk, rfl, hexp, -, -, hRmax, hrawq, hq, -, hfill⟩ := unpack_parts hfit hi
  have hbi := hord bi Ri hexp
  rcases Int.lt_trichotomy Ri raw with hlt | heq | hgt
  · have hqr := stamp_lt_of_rawIndex_lt hq hr hrawq hraw hlt
    have hlt' : (bi : Int) < b := Int.not_le.1 fun h => absurd (hbi.1 h) (Int.not_le.2 hlt)
    have := mul_add_le_mul_add (n := d.layout.size) (j := (k : Int) + 1) (k := (j : Int))
      (by omega) (by omega) hlt'
    constructor <;> intro h <;> omega
  · subst heq
    have hbase : q.truncate d.layout.base = r.truncate d.layout.base :=
      Except.ok.inj ((partsOfRaw_rawIndex hq hrawq).symm.trans (partsOfRaw_rawIndex hr hraw))
    rw [hbase] at hfill
    obtain ⟨rfl, hiff⟩ := hsame bi k q hexp hRmax hk hfill
    rw [hiff]
    omega
  · have hrq := stamp_lt_of_rawIndex_lt hr hq hraw hrawq hgt
    rcases Int.lt_or_eq_of_le (hbi.2 (Int.le_of_lt hgt)) with hlt' | heq'
    · have := mul_add_le_mul_add (n := d.layout.size) (j := (j : Int)) (k := (k : Int))
        (by omega) (by omega) hlt'
      constructor <;> intro h <;> omega
    · have hj0 : j = 0 := by
        refine Classical.byContradiction fun hj0 => ?_
        have := hnext hj0 Ri (heq' ▸ hexp)
        omega
      subst hj0 heq'
      constructor <;> intro h <;> omega

/-- **Going down, the live indices split at a position.** Let base index `b` be at most those whose
raw index is above that of `r` and at least the others, and let `j` be the last position of it whose
time is at or before `r` in the base period of `r`, or the last position when `b` is an earlier base
period. Then a live index is at most `b * size + j` exactly when its time is at or before `r`. An
index of an earlier base period has an earlier time and an index not above, and is `b` itself only
when the time moved to its last position; in the base period of `r` the position decides; a later
base period has a later time and a larger index. -/
theorem splits_down (hfit : d.layout.CycleFits) {r : TimeParts} (hr : r.Normal) {raw b j : Int}
    (hraw : rawIndex r d.layout.base = .ok raw)
    (hord : ∀ b' raw', d.layout.expandBase b' = .ok raw' → (b' ≤ b ↔ raw' ≤ raw))
    (hj : -1 ≤ j ∧ j < d.layout.size)
    (hprev : j ≠ d.layout.size - 1 → ∀ raw', d.layout.expandBase b = .ok raw' → raw' = raw)
    (hsame : ∀ b' k q, d.layout.expandBase b' = .ok raw → raw ≤ Word.max → k < d.layout.size →
      d.layout.fillSub k (r.truncate d.layout.base) = .ok q →
        b' = b ∧ (q.stamp ≤ r.stamp ↔ (k : Int) ≤ j))
    {i : Int} {q : TimeParts} (hi : d.unpack i = .ok q) :
    q.stamp ≤ r.stamp ↔ i ≤ b * d.layout.size + j := by
  obtain ⟨bi, k, Ri, hk, rfl, hexp, -, -, hRmax, hrawq, hq, -, hfill⟩ := unpack_parts hfit hi
  have hbi := hord bi Ri hexp
  rcases Int.lt_trichotomy Ri raw with hlt | heq | hgt
  · have hqr := stamp_lt_of_rawIndex_lt hq hr hrawq hraw hlt
    rcases Int.lt_or_eq_of_le (hbi.2 (Int.le_of_lt hlt)) with hlt' | heq'
    · have := mul_add_le_mul_add (n := d.layout.size) (j := (k : Int) + 1) (k := j + 1)
        (by omega) (by omega) hlt'
      constructor <;> intro h <;> omega
    · have hjl : j = d.layout.size - 1 := by
        refine Classical.byContradiction fun hjl => ?_
        have := hprev hjl Ri (heq' ▸ hexp)
        omega
      subst hjl
      rw [← heq']
      constructor <;> intro h <;> omega
  · subst heq
    have hbase : q.truncate d.layout.base = r.truncate d.layout.base :=
      Except.ok.inj ((partsOfRaw_rawIndex hq hrawq).symm.trans (partsOfRaw_rawIndex hr hraw))
    rw [hbase] at hfill
    obtain ⟨rfl, hiff⟩ := hsame bi k q hexp hRmax hk hfill
    rw [hiff]
    omega
  · have hrq := stamp_lt_of_rawIndex_lt hr hq hraw hrawq hgt
    have hlt' : b < (bi : Int) := Int.not_le.1 fun h => absurd (hbi.1 h) (Int.not_le.2 hgt)
    have := mul_add_le_mul_add (n := d.layout.size) (j := j + 1) (k := (k : Int))
      (by omega) (by omega) hlt'
    constructor <;> intro h <;> omega

/-- The month of a normal time is one of the twelve. -/
theorem month_mem_of_normal {r : TimeParts} (hr : r.Normal) {s : SubPattern} :
    s.baseUnit = .month → 1 ≤ r.month ∧ r.month ≤ 12 := fun _ => by
  obtain ⟨-, hm1, hm2, -, -⟩ := Gregorian.checkDate_eq_ok.1 hr.date
  exact ⟨hm1, hm2⟩

/-- A located time is numbered within a base period whose number of positions fits a word. -/
theorem fits_of_locate {s : SubPattern} {r : TimeParts} {v : Int} {l : Lookup}
    (hl : s.lookup r = .ok (v, l)) {b : Int} {a : Adjustment} {t : Int}
    (h : s.locate b a r = .ok t) : Word.Fits (b * s.size) := by
  refine Classical.byContradiction fun hfit => ?_
  rw [SubPattern.locate_of_lookup hl, SubPattern.place_of_not_fits hfit] at h
  cases h

/-- **Going down without moving, a live time after `r` lies in the base period of `r` or a later
one**: its raw index is at least that of `r`, so its base index is at least the one reached. The
base period of `r` itself is kept. -/
theorem base_le_of_stamp_lt (hfit : d.layout.CycleFits) {r : TimeParts} (hr : r.Normal)
    {raw b : Int} (hraw : rawIndex r d.layout.base = .ok raw)
    (hc : d.layout.compressAdjusted raw .down = .ok (b, false)) {i : Int} {q : TimeParts}
    (hi : d.unpack i = .ok q) (hrq : r.stamp < q.stamp) : b * d.layout.size ≤ i := by
  obtain ⟨hraw0, -⟩ := rawIndex_bounds hr hraw
  obtain ⟨-, hexp, hord⟩ := Layout.compressAdjusted_down hraw0 hc
  obtain ⟨bi, k, Ri, -, rfl, hexpi, -, -, hRmax, hrawq, hq, -, -⟩ := unpack_parts hfit hi
  have hle := rawIndex_le_of_stamp_le hr hq (Int.le_of_lt hrq) hraw hrawq
  have hbbi : b ≤ bi := by
    rcases Int.lt_or_eq_of_le hle with hlt | heq
    · exact Int.le_of_lt (Int.not_le.1 fun h => absurd ((hord bi Ri hexpi).1.1 h)
        (Int.not_le.2 hlt))
    · subst heq
      exact Int.le_of_eq (Layout.expandBase_inj ((hexp rfl).1 hRmax) hexpi)
  have hmul := Int.mul_le_mul_of_nonneg_right hbbi (Int.natCast_nonneg d.layout.size)
  omega

section Target

variable (hfit : d.layout.CycleFits) {r : TimeParts} (hr : r.Normal)
  (htr : r.truncate d.resolution = r) {raw b : Int} {moved : Bool}
  (hraw : rawIndex r d.layout.base = .ok raw)

include hfit hr htr hraw

/-- **Going up, the target splits the live indices**: there is an index `t`, the one the target
gives when it fits a word, such that a live index is at least `t` exactly when its time is at or
after `r`. The lookup of `r` must succeed where it is made. Without a pattern the time of the base
period of `r` is `r` itself. With one, a move to a later base period targets its first position, and
otherwise the first position admitting at least the value of `r`. -/
theorem target_up (hc : d.layout.compressAdjusted raw .up = .ok (b, moved))
    (hlookup : ∀ s, d.layout.sub = some s → moved = false → ∃ vl, s.lookup r = .ok vl) :
    ∃ t, 0 ≤ t ∧ (∀ t', d.target r b moved .up = .ok t' → t' = t) ∧
      (t ≤ Word.max → d.target r b moved .up = .ok t) ∧
      ∀ i q, d.unpack i = .ok q → (r.stamp ≤ q.stamp ↔ t ≤ i) := by
  obtain ⟨hraw0, -⟩ := rawIndex_bounds hr hraw
  obtain ⟨hb0, hexp, hord⟩ := Layout.compressAdjusted_up hraw0 hc
  cases hs : d.layout.sub with
  | none =>
    have hn : d.layout.size = 1 := Layout.size_of_sub_none hs
    refine ⟨b, hb0, fun t' ht' => ?_, fun _ => target_of_sub_none hs r b moved .up,
      fun i q hi => ?_⟩
    · rw [target_of_sub_none hs, Except.ok.injEq] at ht'
      exact ht'.symm
    · have hsplit := splits_up hfit hr hraw (fun b' raw' he => (hord b' raw' he).1) (j := 0)
        (by omega) (fun h => absurd rfl h) (fun b' k q he hmax hk hfill => ?_) hi
      · simpa [hn] using hsplit
      · cases moved with
        | false =>
          rw [fillSub_of_sub_none_eq hs htr hfill]
          exact ⟨Layout.expandBase_inj he ((hexp rfl).1 hmax), by simp⟩
        | true => exact absurd rfl ((hord b' raw he).2 rfl)
  | some s =>
    have hn : d.layout.size = s.size := Layout.size_of_sub_some hs
    have hbn : 0 ≤ b * s.size := Int.mul_nonneg hb0 (Int.natCast_nonneg _)
    cases moved with
    | true =>
      have htarget : d.target r b true .up = Word.within (.overflow .subPeriodAdjustment)
          (b * s.size) := by simp [target, hs]
      refine ⟨b * s.size, hbn, fun t' ht' => ?_, fun htmax => ?_, fun i q hi => ?_⟩
      · rw [htarget] at ht'
        exact (Word.within_eq_ok.1 ht').2.symm
      · rw [htarget, Word.within_of_nonneg _ hbn, if_pos htmax]
      · have hsplit := splits_up hfit hr hraw (fun b' raw' he => (hord b' raw' he).1) (j := 0)
          (by omega) (fun h => absurd rfl h)
          (fun b' k q he _ _ _ => absurd rfl ((hord b' raw he).2 rfl)) hi
        simpa [hn] using hsplit
    | false =>
      obtain ⟨⟨v, l⟩, hl⟩ := hlookup s hs rfl
      have hv := SubPattern.requests_of_lookup hl
      obtain ⟨j, hfirst, hloc⟩ := SubPattern.firstAtLeast_of_lookup (month_mem_of_normal hr) hl
        (SubPattern.requests_ne_zero hr hv)
      have htarget : d.target r b false .up = liftPat (s.locate b .up r) := by simp [target, hs]
      refine ⟨b * s.size + j, by omega, fun t' ht' => ?_, fun htmax => ?_, fun i q hi => ?_⟩
      · rw [htarget, liftPat_eq_ok] at ht'
        rw [hloc b (fits_of_locate hl ht')] at ht'
        exact (Word.within_eq_ok.1 ht').2.symm
      · have hfits : Word.Fits (b * s.size) := ⟨by simp only [Word.min]; omega, by omega⟩
        rw [htarget, liftPat_eq_ok, hloc b hfits, Word.within_of_nonneg _ (by omega),
          if_pos htmax]
      · have hsplit := splits_up hfit hr hraw (fun b' raw' he => (hord b' raw' he).1) (j := j)
          (by rw [hn]; exact hfirst.1) (fun _ => (hexp rfl).2)
          (fun b' k q he hmax hk hfill => ?_) hi
        · simpa [hn] using hsplit
        · obtain ⟨x, hx, hrq, -⟩ := fill_compare hs hr htr hv hfill
          exact ⟨Layout.expandBase_inj he ((hexp rfl).1 hmax),
            hrq.trans (hfirst.le_iff (month_mem_of_normal hr) hx)⟩

/-- **Going down, the target splits the live indices**: there is an index `t`, the one the target
gives where a live time comes after `r`, such that a live index is at most `t` exactly when its time
is at or before `r`. The lookup of `r` must succeed where it is made. Without a pattern the time of
the base period of `r` is `r` itself. With one, a move to an earlier base period targets its last
position, where a later live time has a larger index, which fits; otherwise the target is the last
position admitting at most the value of `r`, and a later live time lies in this base period or a
later one. -/
theorem target_down (hc : d.layout.compressAdjusted raw .down = .ok (b, moved))
    (hlookup : ∀ s, d.layout.sub = some s → moved = false → ∃ vl, s.lookup r = .ok vl) :
    ∃ t, -1 ≤ t ∧ (∀ t', d.target r b moved .down = .ok t' → t' = t) ∧
      (∀ i q, d.unpack i = .ok q → r.stamp < q.stamp → d.target r b moved .down = .ok t) ∧
      ∀ i q, d.unpack i = .ok q → (q.stamp ≤ r.stamp ↔ i ≤ t) := by
  obtain ⟨hraw0, -⟩ := rawIndex_bounds hr hraw
  obtain ⟨hb0, hexp, hord⟩ := Layout.compressAdjusted_down hraw0 hc
  have hmax := d.maxIndex_le
  cases hs : d.layout.sub with
  | none =>
    have hn : d.layout.size = 1 := Layout.size_of_sub_none hs
    refine ⟨b, by omega, fun t' ht' => ?_, fun _ _ _ _ => target_of_sub_none hs r b moved .down,
      fun i q hi => ?_⟩
    · rw [target_of_sub_none hs, Except.ok.injEq] at ht'
      exact ht'.symm
    · have hsplit := splits_down hfit hr hraw (fun b' raw' he => (hord b' raw' he).1) (j := 0)
        (by omega) (fun h => absurd (by omega) h) (fun b' k q he hmax hk hfill => ?_) hi
      · simpa [hn] using hsplit
      · cases moved with
        | false =>
          rw [fillSub_of_sub_none_eq hs htr hfill]
          exact ⟨Layout.expandBase_inj he ((hexp rfl).1 hmax), by simp; omega⟩
        | true => exact absurd rfl ((hord b' raw he).2 rfl)
  | some s =>
    have hn : d.layout.size = s.size := Layout.size_of_sub_some hs
    have hbn : 0 ≤ b * s.size := Int.mul_nonneg hb0 (Int.natCast_nonneg _)
    have hpos : 0 < s.size := hn ▸ d.layout.size_pos
    cases moved with
    | true =>
      have htarget : d.target r b true .down = Word.within (.overflow .subPeriodAdjustment)
          (b * s.size + ((s.size : Int) - 1)) := by simp [target, hs]
      have hsplit : ∀ i q, d.unpack i = .ok q →
          (q.stamp ≤ r.stamp ↔ i ≤ b * s.size + ((s.size : Int) - 1)) := fun i q hi => by
        have h := splits_down hfit hr hraw (fun b' raw' he => (hord b' raw' he).1)
          (j := (s.size : Int) - 1) (by omega) (fun h => absurd (by rw [hn]) h)
          (fun b' k q he _ _ _ => absurd rfl ((hord b' raw he).2 rfl)) hi
        simpa [hn] using h
      refine ⟨b * s.size + ((s.size : Int) - 1), by omega, fun t' ht' => ?_,
        fun i q hi hrq => ?_, hsplit⟩
      · rw [htarget] at ht'
        exact (Word.within_eq_ok.1 ht').2.symm
      · have hti := (hsplit i q hi).not.1 (Int.not_le.2 hrq)
        have hbound := (unpack_eq_ok.1 hi).1
        rw [htarget, Word.within_of_nonneg _ (by omega), if_pos (by omega)]
    | false =>
      obtain ⟨⟨v, l⟩, hl⟩ := hlookup s hs rfl
      have hv := SubPattern.requests_of_lookup hl
      obtain ⟨j, hlast, hloc⟩ := SubPattern.lastAtMost_of_lookup (month_mem_of_normal hr) hl
        (SubPattern.requests_ne_zero hr hv)
      have htarget : d.target r b false .down = liftPat (s.locate b .down r) := by
        simp [target, hs]
      have hsplit : ∀ i q, d.unpack i = .ok q → (q.stamp ≤ r.stamp ↔ i ≤ b * s.size + j) :=
          fun i q hi => by
        have h := splits_down hfit hr hraw (fun b' raw' he => (hord b' raw' he).1) (j := j)
          (by rw [hn]; exact ⟨hlast.1, hlast.2.1⟩) (fun _ => (hexp rfl).2)
          (fun b' k q he hmax hk hfill => ?_) hi
        · simpa [hn] using h
        · obtain ⟨x, hx, -, hqr⟩ := fill_compare hs hr htr hv hfill
          exact ⟨Layout.expandBase_inj he ((hexp rfl).1 hmax),
            hqr.trans (hlast.le_iff (month_mem_of_normal hr) hx)⟩
      refine ⟨b * s.size + j, by have := hlast.1; omega, fun t' ht' => ?_, fun i q hi hrq => ?_,
        hsplit⟩
      · rw [htarget, liftPat_eq_ok] at ht'
        rw [hloc b (fits_of_locate hl ht')] at ht'
        exact (Word.within_eq_ok.1 ht').2.symm
      · have hti := (hsplit i q hi).not.1 (Int.not_le.2 hrq)
        have hbound := (unpack_eq_ok.1 hi).1
        have hbi := base_le_of_stamp_lt hfit hr hraw hc hi hrq
        rw [hn] at hbi
        have hfits : Word.Fits (b * s.size) := ⟨by simp only [Word.min]; omega, by omega⟩
        have := hlast.1
        rw [htarget, liftPat_eq_ok, hloc b hfits]
        exact Word.within_of_fits _ ⟨by simp only [Word.min]; omega, by omega⟩

end Target

end TimeDomain

end Chronology
