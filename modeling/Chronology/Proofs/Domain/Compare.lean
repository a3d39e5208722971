import Chronology.Proofs.Domain.Order
import Chronology.Proofs.Domain.Time

/-!
# Comparing times across domains

`TimeIndex.compare` orders two times by index when they share a domain. Otherwise the coarser of
the two is moved to the unrestricted domain of the finer resolution and compared there, and at
one resolution both are moved to the unrestricted domain of that resolution. The moves keep the
times' fields (`TimeIndex.convert_unrestricted`), and within a domain indices compare as their
times do (`TimeDomain.compare_unpack`), so every answer is the chronological order of the two
times.

The two sides are not treated alike: asked the other way round, the other time is moved first.
Both orders still move the same times to the same domain, since the finer of two resolutions
does not depend on their order, so a comparison succeeds exactly when the reversed one does.

## Main definitions

* `Resolution.finer`: the finer of two resolutions.

## Main results

* `TimeIndex.compare_eq_ok`: a comparison gives the chronological order of the two times.
* `TimeIndex.compare_ok_iff`: when a comparison succeeds.
* `TimeIndex.compare_chronological`: the order, its reversal, and when it is given.
-/

namespace Chronology

open TimeParts

/-- The finer of two resolutions. -/
def Resolution.finer (r s : Resolution) : Resolution := if r.level < s.level then s else r

theorem Resolution.level_inj {r s : Resolution} (h : r.level = s.level) : r = s := by
  cases r <;> cases s <;> simp_all [level]

theorem Resolution.finer_comm (r s : Resolution) : r.finer s = s.finer r := by
  unfold finer
  split_ifs with h1 h2 h2
  · omega
  · rfl
  · rfl
  · exact level_inj (by omega)

namespace TimeIndex

/-- Times of one domain compare by index as their times do. -/
theorem compare_index {a b : TimeIndex} (h : a.domain.Same b.domain) :
    Ord.compare a.index b.index = a.parts.compareTime b.parts :=
  TimeDomain.compare_unpack a.unpack_index
    ((TimeDomain.unpack_congr h b.index).trans b.unpack_index)

/-! ### The order given -/

/-- Comparing in the unrestricted domain of a resolution as fine as both times' is comparing
their times. -/
theorem compareAt_eq_ok {a b : TimeIndex} {r : Resolution} {o : Ordering}
    (ha : a.domain.resolution.level ≤ r.level) (hb : b.domain.resolution.level ≤ r.level)
    (h : compareAt a b r = .ok o) : o = a.parts.compareTime b.parts := by
  unfold compareAt at h
  split at h
  · cases h
    exact compare_index ‹_›
  · obtain ⟨a', ha', h⟩ := bind_eq_ok.1 h
    obtain ⟨b', hb', h⟩ := bind_eq_ok.1 h
    cases h
    obtain ⟨hsa, hpa⟩ := convert_unrestricted ha ha'
    obtain ⟨hsb, hpb⟩ := convert_unrestricted hb hb'
    rw [← hpa, ← hpb]
    exact compare_index (hsa.trans hsb.symm)

/-- **A comparison gives the chronological order of the two times.** A coarser time moved to the
finer resolution lands in a domain of that resolution, where indices follow the order of times. -/
theorem compare_eq_ok {a b : TimeIndex} {o : Ordering} (h : a.compare b = .ok o) :
    o = a.parts.compareTime b.parts := by
  unfold compare at h
  split at h
  · cases h
    exact compare_index ‹_›
  · dsimp only at h
    split_ifs at h with hlt hgt
    · obtain ⟨a', ha', h⟩ := bind_eq_ok.1 h
      obtain ⟨hsa, hpa⟩ := convert_unrestricted (Nat.le_of_lt hlt) ha'
      have hres := TimeDomain.resolution_of_same hsa
      rw [TimeDomain.resolution_unrestricted] at hres
      rw [compareAt_eq_ok (Nat.le_of_eq (congrArg Resolution.level hres)) (Nat.le_refl _) h,
        hpa]
    · obtain ⟨b', hb', h⟩ := bind_eq_ok.1 h
      obtain ⟨hsb, hpb⟩ := convert_unrestricted (Nat.le_of_lt hgt) hb'
      have hres := TimeDomain.resolution_of_same hsb
      rw [TimeDomain.resolution_unrestricted] at hres
      rw [compareAt_eq_ok (Nat.le_refl _) (Nat.le_of_eq (congrArg Resolution.level hres)) h,
        hpb]
    · exact compareAt_eq_ok (Nat.le_refl _) (by omega) h

/-! ### When an order is given -/

/-- A comparison in an unrestricted domain succeeds when the times share a domain or both move
there. -/
theorem compareAt_ok_iff {a b : TimeIndex} {r : Resolution} :
    (∃ o, compareAt a b r = .ok o) ↔ a.domain.Same b.domain ∨
      (∃ a', a.convert (TimeDomain.unrestricted r) .none = .ok a') ∧
        ∃ b', b.convert (TimeDomain.unrestricted r) .none = .ok b' := by
  unfold compareAt
  by_cases hs : a.domain.Same b.domain
  · simp [hs]
  · simp only [if_neg hs, bind_eq_ok, except_pure_eq]
    rw [or_iff_right hs]
    constructor
    · rintro ⟨o, a', ha', b', hb', -⟩
      exact ⟨⟨a', ha'⟩, ⟨b', hb'⟩⟩
    · rintro ⟨⟨a', ha'⟩, ⟨b', hb'⟩⟩
      exact ⟨_, a', ha', b', hb', rfl⟩

/-- **A comparison succeeds exactly when the times share a domain or both move to the unrestricted
domain of the finer of their resolutions.** Across resolutions the coarser time moves first, and the
finer one moves as well unless its domain is already the unrestricted one; at one resolution both
times move. -/
theorem compare_ok_iff {a b : TimeIndex} :
    (∃ o, a.compare b = .ok o) ↔ a.domain.Same b.domain ∨
      (∃ a', a.convert (TimeDomain.unrestricted
          (a.domain.resolution.finer b.domain.resolution)) .none = .ok a') ∧
        ∃ b', b.convert (TimeDomain.unrestricted
          (a.domain.resolution.finer b.domain.resolution)) .none = .ok b' := by
  unfold compare Resolution.finer
  by_cases hs : a.domain.Same b.domain
  · simp [hs]
  · rw [if_neg hs, or_iff_right hs]
    by_cases hlt : a.domain.resolution.level < b.domain.resolution.level
    · simp only [if_pos hlt, bind_eq_ok]
      have hmove : ∀ {a'}, a.convert (TimeDomain.unrestricted b.domain.resolution) .none = .ok a' →
          a'.domain.Same (TimeDomain.unrestricted b.domain.resolution) := fun ha' =>
        (convert_unrestricted (Nat.le_of_lt hlt) ha').1
      constructor
      · rintro ⟨o, a', ha', hc⟩
        refine ⟨⟨a', ha'⟩, ?_⟩
        rcases compareAt_ok_iff.1 ⟨o, hc⟩ with hsame | ⟨-, hb⟩
        · exact ⟨b, convert_of_same (hsame.symm.trans (hmove ha')) _⟩
        · exact hb
      · rintro ⟨⟨a', ha'⟩, hb⟩
        obtain ⟨o, hc⟩ := compareAt_ok_iff.2 (.inr ⟨⟨a', convert_of_same (hmove ha') _⟩, hb⟩)
        exact ⟨o, a', ha', hc⟩
    · by_cases hgt : b.domain.resolution.level < a.domain.resolution.level
      · simp only [if_neg hlt, if_pos hgt, bind_eq_ok]
        have hmove : ∀ {b'}, b.convert (TimeDomain.unrestricted a.domain.resolution) .none =
            .ok b' → b'.domain.Same (TimeDomain.unrestricted a.domain.resolution) := fun hb' =>
          (convert_unrestricted (Nat.le_of_lt hgt) hb').1
        constructor
        · rintro ⟨o, b', hb', hc⟩
          refine ⟨?_, ⟨b', hb'⟩⟩
          rcases compareAt_ok_iff.1 ⟨o, hc⟩ with hsame | ⟨ha, -⟩
          · exact ⟨a, convert_of_same (hsame.trans (hmove hb')) _⟩
          · exact ha
        · rintro ⟨ha, ⟨b', hb'⟩⟩
          obtain ⟨o, hc⟩ := compareAt_ok_iff.2 (.inr ⟨ha, ⟨b', convert_of_same (hmove hb') _⟩⟩)
          exact ⟨o, b', hb', hc⟩
      · simp only [if_neg hlt, if_neg hgt]
        rw [compareAt_ok_iff, or_iff_right hs]

/-- **Comparison across domains is the chronological order of the times**: an answer given is
the lexicographic order of the two times' fields; the comparison succeeds exactly when the
reversed one does, which then gives the reversed order; and it succeeds whenever both times
pack in the unrestricted domain of the finer of their resolutions. -/
theorem compare_chronological (a b : TimeIndex) :
    (∀ o, a.compare b = .ok o → o = a.parts.compareTime b.parts) ∧
      ((∃ o, a.compare b = .ok o) ↔ ∃ o, b.compare a = .ok o) ∧
      (∀ o, a.compare b = .ok o → b.compare a = .ok o.swap) ∧
      ((∃ i, (TimeDomain.unrestricted (a.domain.resolution.finer b.domain.resolution)).pack
          a.parts .none = .ok i) →
        (∃ j, (TimeDomain.unrestricted (a.domain.resolution.finer b.domain.resolution)).pack
          b.parts .none = .ok j) →
        ∃ o, a.compare b = .ok o) := by
  have hsymm : (∃ o, a.compare b = .ok o) ↔ ∃ o, b.compare a = .ok o := by
    rw [compare_ok_iff, compare_ok_iff, Resolution.finer_comm]
    exact ⟨fun h => h.imp Eq.symm And.symm, fun h => h.imp Eq.symm And.symm⟩
  refine ⟨fun o h => compare_eq_ok h, hsymm, fun o h => ?_, fun ⟨i, hi⟩ ⟨j, hj⟩ => ?_⟩
  · obtain ⟨o', h'⟩ := hsymm.1 ⟨o, h⟩
    rw [h', compare_eq_ok h', compare_eq_ok h, compareTime_swap]
  · exact compare_ok_iff.2 (.inr ⟨convert_of_pack hi, convert_of_pack hj⟩)

/-- The first day of the calendar, a time of the unrestricted domain of days, comes before the
sixth hour of that day, a time of the unrestricted domain of hours, asked either way round. -/
theorem compare_first_day_before_its_sixth_hour :
    ∃ a b : TimeIndex, (TimeDomain.unrestricted .day).time 0 = .ok a ∧
      (TimeDomain.unrestricted .hour).time 5 = .ok b ∧
      a.compare b = .ok .lt ∧ b.compare a = .ok .gt := by
  refine ⟨⟨TimeDomain.unrestricted .day, 0, {}, by decide, rfl⟩,
    ⟨TimeDomain.unrestricted .hour, 5, { hour := 5 }, by decide, rfl⟩, rfl, rfl, ?_⟩
  obtain ⟨hval, -, hswap, hok⟩ := compare_chronological
    ⟨TimeDomain.unrestricted .day, 0, {}, by decide, rfl⟩
    ⟨TimeDomain.unrestricted .hour, 5, { hour := 5 }, by decide, rfl⟩
  obtain ⟨o, ho⟩ := hok ⟨0, rfl⟩ ⟨5, rfl⟩
  have hlt : o = .lt := (hval o ho).trans (by decide)
  subst hlt
  exact ⟨ho, hswap _ ho⟩

end TimeIndex

end Chronology
