import Chronology.Proofs.Domain.Nearest

/-!
# Times counted from the origin

A time can be named by its offset from the domain's origin, a signed 32-bit word. The domain keeps
the indices at which such offsets start and stop: the origin moved by the least and the greatest
32-bit word, held within `[0, maxIndex]`. The first and the last time that an offset can name are
then found by settling from those indices, up and down, and checking the offset of the index that
settling reaches.

This module shows that the two are exact: the first offset time is the least live index whose
offset fits, and it exists exactly when such an index does; likewise the last one is the greatest.
The searches are the ones packing settles with, so the argument is that of
`TimeDomain.settleUp_spec` and `TimeDomain.settleUp_exists` (and their downward pair): an index
that settling passes is dead, and settling finds a live index whenever one lies in its direction
within the bounds. Clamping the start loses nothing, since no index with a fitting offset lies
beyond the origin moved by a 32-bit word.

## Main definitions

* `TimeDomain.OffsetCompatible`: a live index whose offset from the origin fits a 32-bit word.

## Main results

* `TimeDomain.minOffsetTime_least`, `TimeDomain.maxOffsetTime_greatest`: the offset times found
  are the least and the greatest offset-compatible index.
* `TimeDomain.offset_bounds_exact`: with their existence and the time at an offset.
-/

namespace Chronology

namespace TimeDomain

variable {d : TimeDomain}

/-- A live index of the domain whose offset from the origin fits a signed 32-bit word. -/
def OffsetCompatible (d : TimeDomain) (i : Int) : Prop :=
  (∃ q, d.unpack i = .ok q) ∧ Word.Fits32 (i - d.origin)

/-! ### Offsets -/

theorem offsetOf_eq_ok {i o : Int} :
    d.offsetOf i = .ok o ↔ Word.Fits32 (i - d.origin) ∧ o = i - d.origin := by
  unfold offsetOf
  dsimp only
  split <;> simp_all [eq_comm]

/-- An offset-compatible index lies at or after the index the search for the first offset time
starts from. -/
theorem minOffsetIndex_le {i : Int} (hi : d.OffsetCompatible i) : d.minOffsetIndex ≤ i := by
  obtain ⟨⟨q, hq⟩, hlo, -⟩ := hi
  have hb := (unpack_eq_ok.1 hq).1
  unfold minOffsetIndex origin at *
  omega

/-- An offset-compatible index lies at or before the index the search for the last offset time
starts from. -/
theorem le_maxOffsetIndex {i : Int} (hi : d.OffsetCompatible i) : i ≤ d.maxOffsetIndex := by
  obtain ⟨⟨q, hq⟩, -, hhi⟩ := hi
  have hb := (unpack_eq_ok.1 hq).1
  unfold maxOffsetIndex origin at *
  omega

/-- What a successful search for the first offset time went through: a live index settled up to,
whose offset fits, and its time. -/
theorem minOffsetTime_eq_ok {t : TimeIndex} :
    d.minOffsetTime = .ok t ↔ ∃ u, d.settleUp d.minOffsetIndex = .ok u ∧
      Word.Fits32 (u - d.origin) ∧ d.time u = .ok t := by
  simp only [minOffsetTime, settle, bind_eq_ok, offsetOf_eq_ok]
  constructor
  · rintro ⟨u, hu, o, ⟨hfit, -⟩, ht⟩
    exact ⟨u, hu, hfit, ht⟩
  · rintro ⟨u, hu, hfit, ht⟩
    exact ⟨u, hu, _, ⟨hfit, rfl⟩, ht⟩

/-- What a successful search for the last offset time went through. -/
theorem maxOffsetTime_eq_ok {t : TimeIndex} :
    d.maxOffsetTime = .ok t ↔ ∃ u, d.settleDown d.maxOffsetIndex = .ok u ∧
      Word.Fits32 (u - d.origin) ∧ d.time u = .ok t := by
  simp only [maxOffsetTime, settle, bind_eq_ok, offsetOf_eq_ok]
  constructor
  · rintro ⟨u, hu, o, ⟨hfit, -⟩, ht⟩
    exact ⟨u, hu, hfit, ht⟩
  · rintro ⟨u, hu, hfit, ht⟩
    exact ⟨u, hu, _, ⟨hfit, rfl⟩, ht⟩

/-- A time of the domain is the time of its index, and its offset is counted from the origin. -/
theorem offset_of_time {i : Int} {t : TimeIndex} (ht : d.time i = .ok t)
    (hfit : Word.Fits32 (i - d.origin)) :
    t.domain = d ∧ t.index = i ∧ t.offset = .ok (i - d.origin) := by
  obtain ⟨rfl, rfl⟩ := time_eq_ok ht
  exact ⟨rfl, rfl, offsetOf_eq_ok.2 ⟨hfit, rfl⟩⟩

/-! ### The first and the last offset time -/

/-- The search up stops no later than a live index at or above where it starts. A live index below
the one found would have been passed as dead. -/
theorem settleUp_le {t u i : Int} (h : d.settleUp t = .ok u) {q : TimeParts}
    (hi : d.unpack i = .ok q) (hti : t ≤ i) : u ≤ i := by
  obtain ⟨-, -, hdead⟩ := settleUp_spec h
  by_contra hlt
  have hpassed := hdead i hti (by omega)
  rw [not_isDead_of_unpack hi] at hpassed
  cases hpassed

/-- The search down stops no earlier than a live index at or below where it starts. -/
theorem le_settleDown {t u i : Int} (h : d.settleDown t = .ok u) {q : TimeParts}
    (hi : d.unpack i = .ok q) (hit : i ≤ t) : i ≤ u := by
  obtain ⟨-, -, hdead⟩ := settleDown_spec h
  by_contra hlt
  have hpassed := hdead i (by omega) hit
  rw [not_isDead_of_unpack hi] at hpassed
  cases hpassed

/-- **The first offset time is the least offset-compatible index**: the search up passes only dead
indices, and every offset-compatible index lies at or after where it starts. -/
theorem minOffsetTime_least {t : TimeIndex} (h : d.minOffsetTime = .ok t) :
    t.domain = d ∧ d.OffsetCompatible t.index ∧ (∀ i, d.OffsetCompatible i → t.index ≤ i) ∧
      t.offset = .ok (t.index - d.origin) := by
  obtain ⟨u, hu, hfit, ht⟩ := minOffsetTime_eq_ok.1 h
  obtain ⟨hdom, rfl, hoff⟩ := offset_of_time ht hfit
  obtain ⟨-, hlive, -⟩ := settleUp_spec hu
  refine ⟨hdom, ⟨hlive, hfit⟩, fun i hi => ?_, hoff⟩
  obtain ⟨q, hq⟩ := hi.1
  exact settleUp_le hu hq (minOffsetIndex_le hi)

/-- **The last offset time is the greatest offset-compatible index.** -/
theorem maxOffsetTime_greatest {t : TimeIndex} (h : d.maxOffsetTime = .ok t) :
    t.domain = d ∧ d.OffsetCompatible t.index ∧ (∀ i, d.OffsetCompatible i → i ≤ t.index) ∧
      t.offset = .ok (t.index - d.origin) := by
  obtain ⟨u, hu, hfit, ht⟩ := maxOffsetTime_eq_ok.1 h
  obtain ⟨hdom, rfl, hoff⟩ := offset_of_time ht hfit
  obtain ⟨-, hlive, -⟩ := settleDown_spec hu
  refine ⟨hdom, ⟨hlive, hfit⟩, fun i hi => ?_, hoff⟩
  obtain ⟨q, hq⟩ := hi.1
  exact le_settleDown hu hq (le_maxOffsetIndex hi)

/-- **There is a first offset time when an index is offset-compatible**: the search up from the
clamped start finds a live index no later than it, whose offset then fits. -/
theorem minOffsetTime_exists (hfit : d.layout.CycleFits) {i : Int} (hi : d.OffsetCompatible i) :
    ∃ t, d.minOffsetTime = .ok t := by
  have hstart := minOffsetIndex_le hi
  obtain ⟨⟨q, hq⟩, hlo, hhi⟩ := hi
  have h0 : 0 ≤ d.minOffsetIndex := by
    unfold minOffsetIndex
    omega
  obtain ⟨u, hu⟩ := settleUp_exists hfit h0 hq hstart
  obtain ⟨hstart', ⟨p, hp⟩, -⟩ := settleUp_spec hu
  have hui := settleUp_le hu hq hstart
  have hufit : Word.Fits32 (u - d.origin) := by
    unfold minOffsetIndex at hstart'
    unfold Word.Fits32
    omega
  obtain ⟨t, ht⟩ := time_of_unpack hp
  exact ⟨t, minOffsetTime_eq_ok.2 ⟨u, hu, hufit, ht⟩⟩

/-- **There is a last offset time when an index is offset-compatible.** -/
theorem maxOffsetTime_exists (hfit : d.layout.CycleFits) {i : Int} (hi : d.OffsetCompatible i) :
    ∃ t, d.maxOffsetTime = .ok t := by
  have hstart := le_maxOffsetIndex hi
  obtain ⟨⟨q, hq⟩, hlo, hhi⟩ := hi
  have hmax : d.maxOffsetIndex ≤ d.maxIndex := by
    unfold maxOffsetIndex
    omega
  obtain ⟨u, hu⟩ := settleDown_exists hfit hq hstart hmax
  obtain ⟨hstart', ⟨p, hp⟩, -⟩ := settleDown_spec hu
  have hiu := le_settleDown hu hq hstart
  have hufit : Word.Fits32 (u - d.origin) := by
    unfold maxOffsetIndex at hstart'
    unfold Word.Fits32
    omega
  obtain ⟨t, ht⟩ := time_of_unpack hp
  exact ⟨t, maxOffsetTime_eq_ok.2 ⟨u, hu, hufit, ht⟩⟩

/-! ### The time at an offset -/

/-- **Within a domain whose cycle fits, `time` never overflows**: an index is out of range, or
dead, or has its time. -/
theorem time_kind_ne_overflow (hfit : d.layout.CycleFits) {i : Int} {e : TimeError}
    (h : d.time i = .error e) : e.kind ≠ .overflow := by
  by_cases hb : 0 ≤ i ∧ i ≤ d.maxIndex
  · rcases live_or_dead hfit hb with ⟨q, hq⟩ | hdead
    · obtain ⟨t, ht⟩ := time_of_unpack hq
      rw [ht] at h
      cases h
    · obtain ⟨pos, hpos⟩ := Layout.decompose_of_isDead hdead
      unfold time at h
      rw [dif_pos hb] at h
      split at h
      · cases h
      · rename_i e' he'
        rw [hpos] at he'
        cases h
        cases he'
        simp [TimeError.kind, PatternError.kind]
  · rw [time_out_of_bounds hb] at h
    cases h
    simp [TimeError.kind]

/-- The time at an offset is the time of the index that far from the origin, or an overflow when
that index leaves the word. -/
theorem timeAtOffset_eq (k : Int) :
    (Word.Fits (d.origin + k) → d.timeAtOffset k = d.time (d.origin + k)) ∧
      (¬ Word.Fits (d.origin + k) → d.timeAtOffset k = .error (.overflow .offsetFromOrigin)) := by
  refine ⟨fun h => ?_, fun h => ?_⟩
  · simp only [timeAtOffset, Word.within_of_fits _ h, except_ok_bind]
  · simp only [timeAtOffset, Word.within_of_not_fits _ h, except_error_bind]

/-- **The offset times are exact for every origin.** In a domain whose cycle fits: the first offset
time exists exactly when some live index has an offset from the origin that fits a signed 32-bit
word, and it is the least such index, with that offset; the last offset time likewise is the
greatest. The time at an offset is the time of the index that far from the origin, and it fails with
an overflow only when that index leaves the word. An index that fits is handed to `time`, which
never overflows. -/
theorem offset_bounds_exact (d : TimeDomain) (hfit : d.layout.CycleFits) :
    ((∃ t, d.minOffsetTime = .ok t) ↔ ∃ i, d.OffsetCompatible i) ∧
    (∀ t, d.minOffsetTime = .ok t → t.domain = d ∧ d.OffsetCompatible t.index ∧
      (∀ i, d.OffsetCompatible i → t.index ≤ i) ∧ t.offset = .ok (t.index - d.origin)) ∧
    ((∃ t, d.maxOffsetTime = .ok t) ↔ ∃ i, d.OffsetCompatible i) ∧
    (∀ t, d.maxOffsetTime = .ok t → t.domain = d ∧ d.OffsetCompatible t.index ∧
      (∀ i, d.OffsetCompatible i → i ≤ t.index) ∧ t.offset = .ok (t.index - d.origin)) ∧
    ∀ k : Int, (Word.Fits (d.origin + k) → d.timeAtOffset k = d.time (d.origin + k)) ∧
      (¬ Word.Fits (d.origin + k) → d.timeAtOffset k = .error (.overflow .offsetFromOrigin)) ∧
      ∀ e, d.timeAtOffset k = .error e → e.kind = .overflow → ¬ Word.Fits (d.origin + k) := by
  refine ⟨⟨?_, fun ⟨i, hi⟩ => minOffsetTime_exists hfit hi⟩, fun t => minOffsetTime_least,
    ⟨?_, fun ⟨i, hi⟩ => maxOffsetTime_exists hfit hi⟩, fun t => maxOffsetTime_greatest,
    fun k => ⟨(timeAtOffset_eq k).1, (timeAtOffset_eq k).2, fun e he hkind hk => ?_⟩⟩
  · rintro ⟨t, ht⟩
    exact ⟨t.index, (minOffsetTime_least ht).2.1⟩
  · rintro ⟨t, ht⟩
    exact ⟨t.index, (maxOffsetTime_greatest ht).2.1⟩
  · rw [(timeAtOffset_eq k).1 hk] at he
    exact time_kind_ne_overflow hfit he hkind

/-- The work week counted from an origin five billion days on: its first offset time is the least
index whose offset from the origin fits a 32-bit word, with that offset. The origin itself has a
time, at offset 0. -/
theorem workWeek_far_origin_first_offset_time :
    ∃ d, TimeDomain.make (((Definition.ofBase .day).withCycle Definition.workWeek).withOrigin
        5000000000) = .ok d ∧ d.layout.CycleFits ∧ ∃ t, d.minOffsetTime = .ok t ∧
      d.OffsetCompatible t.index ∧ (∀ i, d.OffsetCompatible i → t.index ≤ i) ∧
        t.offset = .ok (t.index - d.origin) := by
  let d : TimeDomain := ⟨((Definition.ofBase .day).withCycle Definition.workWeek).withOrigin
    5000000000, _, rfl, fun s hs => by cases hs⟩
  have hfit : d.layout.CycleFits := by
    intro c hc
    cases hc
    decide
  have hbounds : (0 : Int) ≤ 5000000000 ∧ (5000000000 : Int) ≤ d.maxIndex := by decide
  obtain ⟨p, hp⟩ := Layout.decompose_live_of_sub_none hfit rfl (toNat_le_topIndex hfit hbounds)
  have horigin : d.OffsetCompatible 5000000000 := ⟨⟨p, unpack_eq_ok.2 ⟨hbounds, hp⟩⟩, by decide⟩
  obtain ⟨t, ht⟩ := (offset_bounds_exact d hfit).1.2 ⟨_, horigin⟩
  exact ⟨d, rfl, hfit, t, ht, ((offset_bounds_exact d hfit).2.1 t ht).2⟩

end TimeDomain

end Chronology
