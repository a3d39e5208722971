import Chronology.Proofs.Domain.Target

/-!
# Moving off an OFF period

A raw index whose period the cycle leaves out is moved, when asked, one period at a time in the
direction of the adjustment until it lands on an ON period: going up it stops with an overflow at
the top of the word, going down it stops before the calendar at zero. The layout does not run
that loop: it finds the number of steps in one search over a single repetition of the cycle
(`Cycle.stepsUp`, `Cycle.stepsDown?`). The two agree because every repetition holds an ON
position, so the loop never takes as many steps as the cycle is long.

This module states what the move does in the terms of the loop. Going up from a raw index, the
answer is the first ON time at or after it, fewer than a repetition away, compressed, with an
overflow exactly when that time is beyond the word; going down, the last ON time at or before it,
fewer than a repetition away, or before the calendar when there is none from zero on, and then
the index itself is below the cycle's length. Without adjustment an OFF period is refused. In
every case the flag of the answer says whether the time moved.

## Main results

* `Cycle.stepsUp_lt_length`, `Cycle.lt_length_of_stepsDown?_eq_none`: the searches stay within one
  repetition.
* `Layout.compressAdjusted_up_nearest`, `Layout.compressAdjusted_down_nearest`,
  `Layout.compressAdjusted_none_iff`: the move in each direction.
* `Layout.compressAdjusted_nearest_on`: the three together.
-/

namespace Chronology

namespace Cycle

variable (c : Cycle)

/-- Going up takes fewer steps than a repetition has positions. -/
theorem stepsUp_lt_length (t : Nat) : c.stepsUp t < c.length := by
  unfold stepsUp
  cases h : (List.range c.length).find? fun k => c.isOn (t + k) with
  | none => exact c.length_pos
  | some k => exact List.mem_range.1 (List.mem_of_find?_eq_some h)

/-- Going down takes fewer steps than a repetition has positions. -/
theorem stepsDown?_lt_length {t k : Nat} (h : c.stepsDown? t = some k) : k < c.length :=
  List.mem_range.1 (List.mem_of_find?_eq_some h)

/-- Some position of the first repetition is ON. -/
theorem exists_isOn_lt_length : ∃ p < c.length, c.isOn p = true := by
  obtain ⟨s, -, hs⟩ := c.exists_isOn_ge 0
  obtain ⟨p, hp, hon, -⟩ := c.isOn_window_up (Nat.zero_le s) hs
  exact ⟨p, hp, by simpa using hon⟩

/-- A time with no ON time at or before it lies within the first repetition. The ON position of the
first repetition lies above it. -/
theorem lt_length_of_stepsDown?_eq_none {t : Nat} (h : c.stepsDown? t = none) : t < c.length := by
  have hoff : ∀ s ≤ t, c.isOn s = false := by simpa [h] using c.stepsDown?_spec t
  obtain ⟨p, hp, hon⟩ := c.exists_isOn_lt_length
  have htp : t < p := Nat.lt_of_not_le fun hpt => by simp [hoff p hpt] at hon
  omega

end Cycle

namespace Layout

variable {l : Layout} {c : Cycle} {raw : Nat}

/-- The compression of an ON time, as the layout computes it. -/
theorem compress_natCast_of_isOn {s : Nat} (hon : c.isOn s = true) :
    c.compress (s : Int) = .ok (Nat.count (fun s => c.isOn s = true) s) := by
  rw [c.compress_eq_count (Int.natCast_nonneg s), Int.toNat_natCast, if_pos hon]

/-- An ON raw index is compressed where it is, whatever the adjustment. -/
theorem compressAdjusted_of_isOn (hc : l.cycle = some c) (hon : c.isOn raw = true)
    (adjust : Adjustment) :
    ∃ d, c.compress raw = .ok d ∧ l.compressAdjusted raw adjust = .ok (d, false) := by
  refine ⟨_, compress_natCast_of_isOn hon, ?_⟩
  simp [compressAdjusted, hc, hon, compress_natCast_of_isOn hon, liftPat, Except.mapError]

/-- Going up from an OFF raw index compresses the first ON time after it, unless that time is
beyond the word. -/
theorem compressAdjusted_up_of_off (hc : l.cycle = some c) (hoff : c.isOn raw = false) :
    l.compressAdjusted raw .up =
      if ((raw + c.stepsUp raw : Nat) : Int) ≤ Word.max then
        .ok (Nat.count (fun s => c.isOn s = true) (raw + c.stepsUp raw), true)
      else .error (.overflow .upwardAdjustment) := by
  have hnext := compress_natCast_of_isOn (c.stepsUp_spec raw).1
  rw [Int.natCast_add] at hnext
  simp only [compressAdjusted, hc, Int.toNat_natCast, hoff, Bool.false_eq_true, if_false,
    Int.not_lt.2 (Int.natCast_nonneg raw)]
  rw [← Int.natCast_add, Word.within_of_nonneg _ (Int.natCast_nonneg _)]
  split_ifs <;> simp [hnext, liftPat, Except.mapError]

/-- Going down from an OFF raw index compresses the last ON time before it. -/
theorem compressAdjusted_down_of_some (hc : l.cycle = some c) (hoff : c.isOn raw = false)
    {k : Nat} (hk : c.stepsDown? raw = some k) :
    l.compressAdjusted raw .down = .ok (Nat.count (fun s => c.isOn s = true) (raw - k), true) := by
  obtain ⟨hkle, hon, -⟩ := by simpa [hk] using c.stepsDown?_spec raw
  have hnext := compress_natCast_of_isOn hon
  rw [Int.natCast_sub hkle] at hnext
  simp [compressAdjusted, hc, hoff, hk, hnext, liftPat, Except.mapError]

/-- Going down from an OFF raw index with no ON time from zero on is before the calendar. -/
theorem compressAdjusted_down_of_none (hc : l.cycle = some c) (hoff : c.isOn raw = false)
    (hk : c.stepsDown? raw = none) : l.compressAdjusted raw .down = .error .beforeCalendar := by
  simp [compressAdjusted, hc, hoff, hk]

/-- Without adjustment an OFF raw index is refused. -/
theorem compressAdjusted_none_of_off (hc : l.cycle = some c) (hoff : c.isOn raw = false) :
    l.compressAdjusted raw .none = .error (.pattern (.offCycle raw)) := by
  simp [compressAdjusted, hc, hoff]

/-! ### The nearest ON time -/

/-- **Going up, a raw index moves to the first ON time at or after it**, fewer than a repetition
away; the move overflows exactly when that time is beyond the word, and the flag says whether the
index moved. An ON index is its own first ON time and stays where it is; an OFF index moves to a
later time, if that time fits the word. -/
theorem compressAdjusted_up_nearest (hc : l.cycle = some c) (hmax : (raw : Int) ≤ Word.max) :
    ∃ s : Nat, IsLeast {s | raw ≤ s ∧ c.isOn s = true} s ∧ s < raw + c.length ∧
      if (s : Int) ≤ Word.max then
        ∃ d, c.compress s = .ok d ∧ l.compressAdjusted raw .up = .ok (d, decide (s ≠ raw))
      else l.compressAdjusted raw .up = .error (.overflow .upwardAdjustment) := by
  obtain ⟨hon, hfirst⟩ := c.stepsUp_spec raw
  refine ⟨raw + c.stepsUp raw, ⟨⟨Nat.le_add_right _ _, hon⟩, fun s hs => hfirst s hs.1 hs.2⟩,
    Nat.add_lt_add_left (c.stepsUp_lt_length raw) raw, ?_⟩
  cases hraw : c.isOn raw with
  | true =>
    have hzero : c.stepsUp raw = 0 := by
      have := hfirst raw (Nat.le_refl _) hraw
      omega
    obtain ⟨d, hd, hres⟩ := compressAdjusted_of_isOn hc hraw .up
    rw [hzero, Nat.add_zero, if_pos hmax]
    exact ⟨d, hd, by simpa using hres⟩
  | false =>
    have hne : raw + c.stepsUp raw ≠ raw := fun h => by
      rw [h, hraw] at hon
      cases hon
    rw [compressAdjusted_up_of_off hc hraw]
    split_ifs
    · exact ⟨_, compress_natCast_of_isOn hon, by simpa using hne⟩
    · rfl

/-- **Going down, a raw index moves to the last ON time at or before it**, fewer than a repetition
away, and the flag says whether it moved; when no time from zero on is ON the move is before the
calendar, and the index lies within the first repetition. An ON index is its own last ON time and
stays where it is; an OFF index moves to an earlier time. -/
theorem compressAdjusted_down_nearest (hc : l.cycle = some c) :
    (∃ s : Nat, IsGreatest {s | s ≤ raw ∧ c.isOn s = true} s ∧ raw < s + c.length ∧
      ∃ d, c.compress s = .ok d ∧ l.compressAdjusted raw .down = .ok (d, decide (s ≠ raw))) ∨
    ((∀ s ≤ raw, c.isOn s = false) ∧ raw < c.length ∧
      l.compressAdjusted raw .down = .error .beforeCalendar) := by
  cases hraw : c.isOn raw with
  | true =>
    left
    obtain ⟨d, hd, hres⟩ := compressAdjusted_of_isOn hc hraw .down
    refine ⟨raw, ⟨⟨Nat.le_refl _, hraw⟩, fun s hs => hs.1⟩, ?_, d, hd, by simpa using hres⟩
    exact Nat.lt_add_of_pos_right c.length_pos
  | false =>
    have hspec := c.stepsDown?_spec raw
    cases hk : c.stepsDown? raw with
    | none =>
      right
      rw [hk] at hspec
      exact ⟨hspec, c.lt_length_of_stepsDown?_eq_none hk,
        compressAdjusted_down_of_none hc hraw hk⟩
    | some k =>
      left
      rw [hk] at hspec
      obtain ⟨hkle, hon, hlast⟩ := hspec
      have hne : raw - k ≠ raw := fun h => by
        rw [h, hraw] at hon
        cases hon
      have hklt := c.stepsDown?_lt_length hk
      refine ⟨raw - k, ⟨⟨Nat.sub_le _ _, hon⟩, fun s hs => hlast s hs.1 hs.2⟩, by omega, _,
        compress_natCast_of_isOn hon, ?_⟩
      rw [compressAdjusted_down_of_some hc hraw hk]
      simp [hne]

/-- Without adjustment a raw index is refused exactly when it is OFF, and otherwise compressed
where it is. -/
theorem compressAdjusted_none_iff (hc : l.cycle = some c) :
    (l.compressAdjusted raw .none = .error (.pattern (.offCycle raw)) ↔ c.isOn raw = false) ∧
    (c.isOn raw = true →
      ∃ d, c.compress raw = .ok d ∧ l.compressAdjusted raw .none = .ok (d, false)) := by
  cases hraw : c.isOn raw with
  | true =>
    obtain ⟨d, hd, hres⟩ := compressAdjusted_of_isOn hc hraw .none
    exact ⟨by simp [hres], fun _ => ⟨d, hd, hres⟩⟩
  | false => exact ⟨by simp [compressAdjusted_none_of_off hc hraw], fun h => by cases h⟩

/-- **Moving off an OFF period ends at the nearest ON period, within one repetition.** For a
layout with a cycle and a raw index from zero to the top of the word: going up gives the
compression of the first ON time at or after the index, fewer than a repetition away, or an
overflow exactly when that time is beyond the word; going down, the compression of the last ON
time at or before it, fewer than a repetition away, or before the calendar exactly when no time
from zero to the index is ON, which leaves the index within the first repetition; without
adjustment an OFF index is refused. The flag says whether the index moved. -/
theorem compressAdjusted_nearest_on (hc : l.cycle = some c) (hmax : (raw : Int) ≤ Word.max) :
    (∃ s : Nat, IsLeast {s | raw ≤ s ∧ c.isOn s = true} s ∧ s < raw + c.length ∧
      if (s : Int) ≤ Word.max then
        ∃ d, c.compress s = .ok d ∧ l.compressAdjusted raw .up = .ok (d, decide (s ≠ raw))
      else l.compressAdjusted raw .up = .error (.overflow .upwardAdjustment)) ∧
    ((∃ s : Nat, IsGreatest {s | s ≤ raw ∧ c.isOn s = true} s ∧ raw < s + c.length ∧
      ∃ d, c.compress s = .ok d ∧ l.compressAdjusted raw .down = .ok (d, decide (s ≠ raw))) ∨
    ((∀ s ≤ raw, c.isOn s = false) ∧ raw < c.length ∧
      l.compressAdjusted raw .down = .error .beforeCalendar)) ∧
    (l.compressAdjusted raw .none = .error (.pattern (.offCycle raw)) ↔ c.isOn raw = false) ∧
    (c.isOn raw = true →
      ∃ d, c.compress raw = .ok d ∧ l.compressAdjusted raw .none = .ok (d, false)) :=
  ⟨compressAdjusted_up_nearest hc hmax, compressAdjusted_down_nearest hc,
    compressAdjusted_none_iff hc⟩

/-- The first day of the calendar falls on the weekend of the work week: going up it moves to the
third day, the first working day, and going down there is no working day before it. The first two
days of the work week are OFF and the third is ON. -/
theorem workWeek_first_day_moves_up :
    let l : Layout := { base := .day, cycle := some Definition.workWeek }
    l.compressAdjusted 0 .up = .ok (0, true) ∧
      l.compressAdjusted 0 .down = .error .beforeCalendar ∧
      l.compressAdjusted 0 .none = .error (.pattern (.offCycle 0)) := by
  intro l
  obtain ⟨⟨s, hs, -, hup⟩, hdown, hnone, -⟩ :=
    compressAdjusted_nearest_on (l := l) rfl (show ((0 : Nat) : Int) ≤ Word.max by decide)
  have hoff : ∀ s < 2, Definition.workWeek.isOn s = false := by decide
  have h2 : s = 2 := hs.unique ⟨⟨Nat.zero_le _, by decide⟩, fun s' hs' =>
    Nat.not_lt.1 fun hlt => by simp [hoff s' hlt] at hs'⟩
  subst h2
  rw [if_pos (by decide)] at hup
  obtain ⟨d, hd, hres⟩ := hup
  have hd0 : d = 0 := by
    have : Definition.workWeek.compress ((2 : Nat) : Int) = .ok 0 := by decide
    rw [this] at hd
    exact (Except.ok.inj hd).symm
  subst hd0
  refine ⟨hres, ?_, hnone.2 (hoff 0 (by decide))⟩
  rcases hdown with ⟨s, hs', -⟩ | ⟨-, -, hbefore⟩
  · obtain ⟨hle, hon⟩ := hs'.1
    rw [Nat.le_zero.1 hle, hoff 0 (by decide)] at hon
    cases hon
  · exact hbefore

end Layout

end Chronology
