import Chronology.Proofs.Domain.Target

/-!
# Adjusting to the nearest live index

A time that the domain leaves out (an OFF period of the cycle, a value no position of the pattern
admits, the 31st of a short month) is packed, when asked, to the nearest index that has a time:
going up to the first live index whose time is at or after it, going down to the last one whose
time is at or before it. Without adjustment only a time of the domain is packed, and a time that
lies among the times of the domain but is none of them is refused as unreachable.

The argument has two halves. `TimeDomain.target_up` and `TimeDomain.target_down` say that the
index packing reaches before it settles splits the live indices as their times lie around the
time. Settling then searches from there for a live index, passing dead ones
(`TimeDomain.settleUp_spec`, `TimeDomain.settleDown_spec`), and finds one whenever one lies in its
direction within the bounds (`TimeDomain.settleUp_exists`, `TimeDomain.settleDown_exists`).

Times are compared field by field, as `TimeParts.compareTime` does; on normal times this is the
order of their stamps, in which the proofs are carried out.

## Main results

* `TimeDomain.pack_up_first`, `TimeDomain.pack_down_last`: an index packed up is the first live
  index at or after the time, one packed down the last at or before it.
* `TimeDomain.pack_up_exists`, `TimeDomain.pack_down_exists`: packing up succeeds when a live time
  lies at or after the time, and packing down when live times lie on both sides of it.
* `TimeDomain.pack_none_unreachable`: without adjustment, a time at or before a live time that is
  none of them is refused as unreachable.
* `TimeDomain.pack_nearest`: the three together, for any time given field by field.
-/

namespace Chronology

namespace TimeParts

/-- **A normal time is determined by its stamp.** -/
theorem eq_of_stamp_eq {p q : TimeParts} (hp : p.Normal) (hq : q.Normal) (h : p.stamp = q.stamp) :
    p = q := by
  obtain ⟨hm, hd, hh, hmi, hs, hn⟩ := hp.digits
  obtain ⟨hm', hd', hh', hmi', hs', hn'⟩ := hq.digits
  have ho := hp.offset_eq
  have ho' := hq.offset_eq
  obtain ⟨year, month, day, hour, minute, second, nanos, offset⟩ := p
  obtain ⟨year', month', day', hour', minute', second', nanos', offset'⟩ := q
  dsimp only at *
  unfold stamp at h
  dsimp only at h
  subst ho ho'
  simp only [TimeParts.mk.injEq, and_true]
  omega

/-- On normal times, not coming after in chronological order is the order of stamps. -/
theorem compareTime_ne_gt_iff {p q : TimeParts} (hp : p.Normal) (hq : q.Normal) :
    p.compareTime q ≠ .gt ↔ p.stamp ≤ q.stamp := by
  rw [compareTime_eq hp hq, Ne, Int.compare_eq_gt, Int.not_lt]

end TimeParts

namespace Layout

variable {l : Layout} {raw b : Int}

/-- **An unmoved base index does not depend on the direction**: where the base period of a raw index
is kept, it is compressed where it is, whatever the adjustment. The two branches that do not move do
not read the adjustment. -/
theorem compressAdjusted_of_unmoved {a : Adjustment}
    (h : l.compressAdjusted raw a = .ok (b, false)) (a' : Adjustment) :
    l.compressAdjusted raw a' = .ok (b, false) := by
  rcases compressAdjusted_eq_ok.1 h with hnone | ⟨c, hc, h0, ⟨hon, hcomp, -⟩ | ⟨-, -, h⟩⟩
  · exact compressAdjusted_eq_ok.2 (.inl hnone)
  · exact compressAdjusted_eq_ok.2 (.inr ⟨c, hc, h0, .inl ⟨hon, hcomp, rfl⟩⟩)
  · cases h

/-- A raw index that some adjustment moves is OFF, and refused without adjustment. -/
theorem compressAdjusted_none_of_moved {a : Adjustment}
    (h : l.compressAdjusted raw a = .ok (b, true)) :
    l.compressAdjusted raw .none = .error (.pattern (.offCycle raw)) := by
  rcases compressAdjusted_eq_ok.1 h with ⟨-, -, h⟩ | ⟨c, hc, h0, ⟨-, -, h⟩ | ⟨hoff, -, -⟩⟩
  · cases h
  · cases h
  · simp [compressAdjusted, hc, Int.not_lt.2 h0, hoff]

end Layout

namespace TimeDomain

variable {d : TimeDomain}

/-! ### Live and dead indices -/

/-- **Within the bounds, an index is live or dead**: no other failure stops its decomposition. -/
theorem live_or_dead (hfit : d.layout.CycleFits) {k : Int} (hk : 0 ≤ k ∧ k ≤ d.maxIndex) :
    (∃ q, d.unpack k = .ok q) ∨ d.layout.isDead k.toNat = true := by
  rcases Layout.decompose_live_or_dead d.sub_base hfit (toNat_le_topIndex hfit hk) with
    ⟨q, hq⟩ | hdead
  · exact .inl ⟨q, unpack_eq_ok.2 ⟨hk, hq⟩⟩
  · exact .inr hdead

theorem not_isDead_of_unpack {i : Int} {q : TimeParts} (h : d.unpack i = .ok q) :
    d.layout.isDead i.toNat = false :=
  Layout.not_isDead_of_eq_ok (unpack_eq_ok.1 h).2

/-- A dead index is none of the live ones. -/
theorem ne_of_dead {k i : Int} {pos : Nat}
    (hk : d.layout.decompose k.toNat = .error (.pattern (.deadSubPeriod pos))) {q : TimeParts}
    (hi : d.unpack i = .ok q) : k ≠ i := by
  rintro rfl
  rw [(unpack_eq_ok.1 hi).2] at hk
  cases hk

/-! ### Settling on a live index -/

/-- **The search up stops at the first live index from where it starts**: every index it passes is
dead. -/
theorem settleUp_spec {t u : Int} (h : d.settleUp t = .ok u) :
    t ≤ u ∧ (∃ q, d.unpack u = .ok q) ∧
      ∀ k : Int, t ≤ k → k < u → d.layout.isDead k.toNat = true := by
  fun_induction d.settleUp t with
  | case1 t hb p hp =>
    obtain rfl : t = u := Except.ok.inj h
    exact ⟨Int.le_refl t, ⟨p, unpack_eq_ok.2 ⟨hb, hp⟩⟩, fun k h1 h2 => by omega⟩
  | case2 => cases h
  | case3 t _ pos hdead _ ih =>
    obtain ⟨htu, hlive, hpassed⟩ := ih h
    refine ⟨by omega, hlive, fun k h1 h2 => ?_⟩
    rcases Int.lt_or_eq_of_le h1 with h1 | rfl
    · exact hpassed k (by omega) h2
    · exact Layout.isDead_of_eq_error hdead
  | case4 => cases h
  | case5 => cases h

/-- **The search down stops at the last live index from where it starts**: every index it passes
is dead. -/
theorem settleDown_spec {t u : Int} (h : d.settleDown t = .ok u) :
    u ≤ t ∧ (∃ q, d.unpack u = .ok q) ∧
      ∀ k : Int, u < k → k ≤ t → d.layout.isDead k.toNat = true := by
  fun_induction d.settleDown t with
  | case1 t hb p hp =>
    obtain rfl : t = u := Except.ok.inj h
    exact ⟨Int.le_refl t, ⟨p, unpack_eq_ok.2 ⟨hb, hp⟩⟩, fun k h1 h2 => by omega⟩
  | case2 t _ pos hdead ih =>
    obtain ⟨hut, hlive, hpassed⟩ := ih h
    refine ⟨by omega, hlive, fun k h1 h2 => ?_⟩
    rcases Int.lt_or_eq_of_le h2 with h2 | rfl
    · exact hpassed k h1 (by omega)
    · exact Layout.isDead_of_eq_error hdead
  | case3 => cases h
  | case4 => cases h

/-- **The search up finds a live index** when one lies at or above where it starts. Every dead index
it passes lies below the live one, so the next index fits a word. -/
theorem settleUp_exists (hfit : d.layout.CycleFits) {t i : Int} {q : TimeParts} (ht : 0 ≤ t)
    (hi : d.unpack i = .ok q) (hti : t ≤ i) : ∃ u, d.settleUp t = .ok u := by
  obtain ⟨-, himax⟩ := (unpack_eq_ok.1 hi).1
  have hmax := d.maxIndex_le
  fun_induction d.settleUp t with
  | case1 t => exact ⟨t, rfl⟩
  | case2 t _ pos hdead hover =>
    have := ne_of_dead hdead hi
    omega
  | case3 t _ pos hdead _ ih => exact ih (by omega) (by have := ne_of_dead hdead hi; omega)
  | case4 t hb e hne herr =>
    rcases live_or_dead hfit hb with ⟨p, hp⟩ | hdead
    · rw [(unpack_eq_ok.1 hp).2] at herr
      cases herr
    · obtain ⟨pos, hpos⟩ := Layout.decompose_of_isDead hdead
      rw [hpos, Except.error.injEq] at herr
      exact absurd herr.symm (hne pos)
  | case5 t hb => exact absurd ⟨ht, by omega⟩ hb

/-- **The search down finds a live index** when one lies at or below where it starts, within the
bounds. -/
theorem settleDown_exists (hfit : d.layout.CycleFits) {t i : Int} {q : TimeParts}
    (hi : d.unpack i = .ok q) (hit : i ≤ t) (ht : t ≤ d.maxIndex) : ∃ u, d.settleDown t = .ok u := by
  obtain ⟨hi0, -⟩ := (unpack_eq_ok.1 hi).1
  fun_induction d.settleDown t with
  | case1 t => exact ⟨t, rfl⟩
  | case2 t _ pos hdead ih => exact ih (by have := ne_of_dead hdead hi; omega) (by omega)
  | case3 t hb e hne herr =>
    rcases live_or_dead hfit hb with ⟨p, hp⟩ | hdead
    · rw [(unpack_eq_ok.1 hp).2] at herr
      cases herr
    · obtain ⟨pos, hpos⟩ := Layout.decompose_of_isDead hdead
      rw [hpos, Except.error.injEq] at herr
      exact absurd herr.symm (hne pos)
  | case4 t hb => exact absurd ⟨by omega, ht⟩ hb

/-! ### Packing in steps -/

/-- A target reached without moving was located, so the time was looked up. -/
theorem lookup_of_target {p : TimeParts} {b t : Int} {moved : Bool} {a : Adjustment}
    (h : d.target p b moved a = .ok t) :
    ∀ s, d.layout.sub = some s → moved = false → ∃ vl, s.lookup p = .ok vl := by
  rintro s hs rfl
  simp only [target, hs, Bool.false_eq_true, if_false, liftPat_eq_ok] at h
  obtain ⟨vl, hl, -⟩ := bind_eq_ok.1 h
  exact ⟨vl, hl⟩

/-- **Without adjustment the target is the one both directions reach, or unreachable**: a time that
a position admits lands there whatever the adjustment; one that no position admits is refused. -/
theorem target_none_cases {p : TimeParts} {b t : Int} (h : d.target p b false .up = .ok t) :
    (d.target p b false .none = .ok t ∧ d.target p b false .down = .ok t) ∨
      ∃ e, d.target p b false .none = .error e ∧ e.kind = .unreachableTime := by
  unfold target at h ⊢
  cases hs : d.layout.sub with
  | none =>
    simp only [hs] at h ⊢
    exact .inl ⟨h, h⟩
  | some s =>
    simp only [hs, Bool.false_eq_true, if_false] at h ⊢
    obtain ⟨⟨v, l⟩, hl, -⟩ := bind_eq_ok.1 (liftPat_eq_ok.1 h)
    have hfits := fits_of_locate hl (liftPat_eq_ok.1 h)
    rw [SubPattern.locate_of_lookup hl] at h ⊢
    rw [SubPattern.locate_of_lookup hl]
    cases l with
    | found j =>
      rw [SubPattern.place_found_eq hfits] at h ⊢
      rw [SubPattern.place_found_eq hfits]
      exact .inl ⟨h, h⟩
    | missing next prev =>
      rw [SubPattern.place_missing_none hfits]
      exact .inr ⟨_, rfl, rfl⟩

/-- The lookup of a time of a base period up to the last one succeeds: fixed ranks always look up,
and ranked weekdays are counted in every period up to the last countable one. Such a base period
lies in a year before that of the last day count. -/
theorem lookup_ok_of_rawIndex_le {s : SubPattern} (hs : d.layout.sub = some s) {r : TimeParts}
    (hr : r.Normal) {raw : Int} (hraw : rawIndex r d.layout.base = .ok raw)
    (hle : raw ≤ d.layout.rawLimit) : ∃ vl, s.lookup r = .ok vl := by
  cases s with
  | fixed p => exact ⟨_, rfl⟩
  | dayRanking p =>
    obtain ⟨hy0, -, -, -, -⟩ := Gregorian.checkDate_eq_ok.1 hr.date
    have hbase : p.period.unit = d.layout.base := d.sub_base _ hs
    have hcountable : raw ≤ Layout.lastCountablePeriod d.layout.base := by
      unfold Layout.rawLimit at hle
      simp only [hs] at hle
      exact Int.le_trans hle (Int.min_le_right _ _)
    obtain ⟨hraw0, -⟩ := rawIndex_bounds hr hraw
    have hyear := Layout.partsOfRaw_year_lt
      (by cases hq : p.period <;> simp [← hbase, hq, RankingPeriod.unit])
      (partsOfRaw_rawIndex hr hraw) (by omega)
    rw [TimeParts.truncate_year] at hyear
    exact p.lookup_ok hr.date fun m hm1 hm2 =>
      Gregorian.dayCount_of_lt_lastYear (Gregorian.checkDate_month_start hy0 hm1 hm2) hyear

section Nearest

variable (hfit : d.layout.CycleFits) {r : TimeParts} (hr : r.Normal)

include hfit hr

/-- **A packed index went through every step**: a raw index, a base index, the target, and the
settled index. -/
theorem pack_steps {a : Adjustment} {u : Int} (h : d.pack r a = .ok u) :
    ∃ raw b moved t, rawIndex r d.layout.base = .ok raw ∧
      d.layout.compressAdjusted raw a = .ok (b, moved) ∧ d.target r b moved a = .ok t ∧
      d.settle t a = .ok u := by
  rw [pack_eq_target hfit, TimeParts.normalize_of_normal hr, except_ok_bind] at h
  obtain ⟨raw, hraw, h⟩ := bind_eq_ok.1 h
  obtain ⟨⟨b, moved⟩, hc, h⟩ := bind_eq_ok.1 h
  obtain ⟨t, ht, hu⟩ := bind_eq_ok.1 h
  exact ⟨raw, b, moved, t, hraw, hc, ht, hu⟩

/-- Packing once the base index is known: the target, then settling. -/
theorem pack_of_compress {a : Adjustment} {raw b : Int} {moved : Bool}
    (hraw : rawIndex r d.layout.base = .ok raw) (hc : d.layout.compressAdjusted raw a = .ok (b, moved)) :
    d.pack r a = d.target r b moved a >>= fun t => d.settle t a := by
  rw [pack_eq_target hfit, TimeParts.normalize_of_normal hr, except_ok_bind, hraw, except_ok_bind, hc,
    except_ok_bind]

/-- **A time at or before a live time is counted and looked up, and going up it reaches a kept
base period**: the base period of the live time bounds its own. -/
theorem reaches_of_le_live {i : Int} {q : TimeParts} (hi : d.unpack i = .ok q)
    (hrq : r.stamp ≤ q.stamp) :
    ∃ raw, rawIndex r d.layout.base = .ok raw ∧ 0 ≤ raw ∧
      (∀ s, d.layout.sub = some s → ∃ vl, s.lookup r = .ok vl) ∧
      ∃ b moved, d.layout.compressAdjusted raw .up = .ok (b, moved) := by
  obtain ⟨_, _, R, -, -, hexp, -, hRl, hRmax, hrawq, hq, -, -⟩ := unpack_parts hfit hi
  obtain ⟨raw, hraw, hle⟩ :=
    rawIndex_of_stamp_le hr hq hrq (Int.le_trans (year_le_rawIndex hq hrawq) hRmax) hrawq
  have hraw0 := (rawIndex_bounds hr hraw).1
  exact ⟨raw, hraw, hraw0, fun s hs => lookup_ok_of_rawIndex_le hs hr hraw (by omega),
    Layout.compressAdjusted_up_ok hraw0 hexp hle⟩

variable (htr : r.truncate d.resolution = r)

include htr

/-- **Packing up lands on the first live index at or after the time.** A live index from the target
on is not among the dead ones the search passes. -/
theorem pack_up_first {u : Int} (h : d.pack r .up = .ok u) :
    (∃ q, d.unpack u = .ok q ∧ r.stamp ≤ q.stamp) ∧
      ∀ i q, d.unpack i = .ok q → r.stamp ≤ q.stamp → u ≤ i := by
  obtain ⟨raw, b, moved, t, hraw, hc, ht, hu⟩ := pack_steps hfit hr h
  obtain ⟨t', -, huniq, -, hsplit⟩ := target_up hfit hr htr hraw hc (lookup_of_target ht)
  obtain rfl := huniq t ht
  obtain ⟨htu, ⟨q, hq⟩, hpassed⟩ := settleUp_spec hu
  refine ⟨⟨q, hq, (hsplit u q hq).2 htu⟩, fun i q' hi hrq => ?_⟩
  refine Int.not_lt.1 fun hiu => ?_
  have hdead := hpassed i ((hsplit i q' hi).1 hrq) hiu
  rw [not_isDead_of_unpack hi] at hdead
  cases hdead

/-- **Packing down lands on the last live index at or before the time.** A live index up to the
target is not among the dead ones the search passes. -/
theorem pack_down_last {u : Int} (h : d.pack r .down = .ok u) :
    (∃ q, d.unpack u = .ok q ∧ q.stamp ≤ r.stamp) ∧
      ∀ i q, d.unpack i = .ok q → q.stamp ≤ r.stamp → i ≤ u := by
  obtain ⟨raw, b, moved, t, hraw, hc, ht, hu⟩ := pack_steps hfit hr h
  obtain ⟨t', -, huniq, -, hsplit⟩ := target_down hfit hr htr hraw hc (lookup_of_target ht)
  obtain rfl := huniq t ht
  obtain ⟨hut, ⟨q, hq⟩, hpassed⟩ := settleDown_spec hu
  refine ⟨⟨q, hq, (hsplit u q hq).2 hut⟩, fun i q' hi hqr => ?_⟩
  refine Int.not_lt.1 fun hui => ?_
  have hdead := hpassed i hui ((hsplit i q' hi).1 hqr)
  rw [not_isDead_of_unpack hi] at hdead
  cases hdead

/-- **Packing up succeeds when a live time lies at or after the time.** The target is at most the
live index, so it fits, and the search up reaches a live index. -/
theorem pack_up_exists {i : Int} {q : TimeParts} (hi : d.unpack i = .ok q)
    (hrq : r.stamp ≤ q.stamp) : ∃ u, d.pack r .up = .ok u := by
  obtain ⟨raw, hraw, -, hlookup, b, moved, hc⟩ := reaches_of_le_live hfit hr hi hrq
  obtain ⟨t, ht0, -, hok, hsplit⟩ :=
    target_up hfit hr htr hraw hc fun s hs _ => hlookup s hs
  have hti := (hsplit i q hi).1 hrq
  have hmax := d.maxIndex_le
  have hbound := (unpack_eq_ok.1 hi).1
  obtain ⟨u, hu⟩ := settleUp_exists hfit ht0 hi hti
  refine ⟨u, ?_⟩
  rw [pack_of_compress hfit hr hraw hc, hok (by omega), except_ok_bind]
  exact hu

/-- **Packing down succeeds when live times lie on both sides of the time.** The target lies from
the earlier live index to below the later one, and a time of the domain packs to its own index. -/
theorem pack_down_exists {i j : Int} {p q : TimeParts} (hi : d.unpack i = .ok p)
    (hpr : p.stamp ≤ r.stamp) (hj : d.unpack j = .ok q) (hrq : r.stamp ≤ q.stamp) :
    ∃ u, d.pack r .down = .ok u := by
  obtain ⟨-, -, -, -, -, -, -, -, -, -, hqn, -, -⟩ := unpack_parts hfit hj
  rcases Int.lt_or_eq_of_le hrq with hlt | heq
  · obtain ⟨raw, hraw, hraw0, hlookup, -⟩ := reaches_of_le_live hfit hr hj hrq
    obtain ⟨_, _, R, -, -, hexp, -, -, -, hrawp, hp, -, -⟩ := unpack_parts hfit hi
    obtain ⟨b, moved, hc⟩ := Layout.compressAdjusted_down_ok hraw0 hexp
      (rawIndex_le_of_stamp_le hp hr hpr hrawp hraw)
    obtain ⟨t, -, -, hok, hsplit⟩ :=
      target_down hfit hr htr hraw hc fun s hs _ => hlookup s hs
    have hit := (hsplit i p hi).1 hpr
    have htj := (hsplit j q hj).not.1 (Int.not_le.2 hlt)
    have hbound := (unpack_eq_ok.1 hj).1
    obtain ⟨u, hu⟩ := settleDown_exists hfit hi hit (by omega)
    refine ⟨u, ?_⟩
    rw [pack_of_compress hfit hr hraw hc, hok j q hj hlt, except_ok_bind]
    exact hu
  · obtain rfl := TimeParts.eq_of_stamp_eq hr hqn heq
    exact ⟨j, (pack_of_unpack hj).2.2 .down⟩

/-- **Without adjustment, a time at or before a live time that is none of them is unreachable**: its
base period is OFF, and the cycle refuses it; or no position admits it, and the pattern refuses it;
or the position that does is located exactly, and the index that both directions reach is not live,
so it is dead. -/
theorem pack_none_unreachable {j : Int} {q : TimeParts} (hj : d.unpack j = .ok q)
    (hrq : r.stamp ≤ q.stamp) (hnot : ∀ k, d.unpack k ≠ .ok r) :
    ∃ e, d.pack r .none = .error e ∧ e.kind = .unreachableTime := by
  obtain ⟨raw, hraw, -, hlookup, b, moved, hc⟩ := reaches_of_le_live hfit hr hj hrq
  cases moved with
  | true =>
    refine ⟨.pattern (.offCycle raw), ?_, rfl⟩
    rw [pack_eq_target hfit, TimeParts.normalize_of_normal hr, except_ok_bind, hraw, except_ok_bind,
      Layout.compressAdjusted_none_of_moved hc, except_error_bind]
  | false =>
    have hcn := Layout.compressAdjusted_of_unmoved hc .none
    have hcd := Layout.compressAdjusted_of_unmoved hc .down
    obtain ⟨t, ht0, -, hok, hsplit⟩ :=
      target_up hfit hr htr hraw hc fun s hs _ => hlookup s hs
    have hmax := d.maxIndex_le
    have hbound := (unpack_eq_ok.1 hj).1
    have htj := (hsplit j q hj).1 hrq
    rcases target_none_cases (hok (by omega)) with ⟨htn, htd⟩ | ⟨e, he, hkind⟩
    · obtain ⟨t', -, tuniq', -, hsplit'⟩ :=
        target_down hfit hr htr hraw hcd fun s hs _ => hlookup s hs
      obtain rfl := tuniq' t htd
      have hdead : d.layout.isDead t.toNat = true := by
        refine (live_or_dead hfit ⟨ht0, by omega⟩).resolve_left ?_
        rintro ⟨q', hq'⟩
        obtain ⟨-, -, -, -, -, -, -, -, -, -, hq'n, -, -⟩ := unpack_parts hfit hq'
        have heq := TimeParts.eq_of_stamp_eq hr hq'n (Int.le_antisymm
          ((hsplit t q' hq').2 (Int.le_refl t)) ((hsplit' t q' hq').2 (Int.le_refl t)))
        exact hnot t (heq ▸ hq')
      obtain ⟨pos, hpos⟩ := Layout.decompose_of_isDead hdead
      refine ⟨.pattern (.deadSubPeriod pos), ?_, rfl⟩
      have hvalid : d.valid t = .ok () := valid_eq_ok.2 ⟨ht0, by omega⟩
      rw [pack_of_compress hfit hr hraw hcn, htn, except_ok_bind]
      simp only [settle, hvalid, except_ok_bind, hpos, except_error_bind]
    · refine ⟨e, ?_, hkind⟩
      rw [pack_of_compress hfit hr hraw hcn, he, except_error_bind]

end Nearest

/-! ### The nearest live index -/

/-- Index `u` is the first live index whose time is at or after `r`, in chronological order. -/
def FirstAtOrAfter (d : TimeDomain) (r : TimeParts) (u : Int) : Prop :=
  (∃ q, d.unpack u = .ok q ∧ r.compareTime q ≠ .gt) ∧
    ∀ i q, d.unpack i = .ok q → r.compareTime q ≠ .gt → u ≤ i

/-- Index `u` is the last live index whose time is at or before `r`, in chronological order. -/
def LastAtOrBefore (d : TimeDomain) (r : TimeParts) (u : Int) : Prop :=
  (∃ q, d.unpack u = .ok q ∧ q.compareTime r ≠ .gt) ∧
    ∀ i q, d.unpack i = .ok q → q.compareTime r ≠ .gt → i ≤ u

/-- **Packing with an adjustment settles on the nearest live index.** Let `r` be the normal form of
a time cut down to the domain's resolution. Packed up, the time lands on the first live index whose
time is at or after `r`, and it is packed whenever some live time is; packed down, it lands on the
last live index whose time is at or before `r`, and it is packed whenever live times lie on both
sides of `r`. Without adjustment a time whose year fits a word packs exactly to an index whose time
is `r`, and a time at or before a live time that is none of them is refused as unreachable. Live
indices are ordered as their times. Against a live time, chronological order is the order of stamps.
-/
theorem pack_nearest (d : TimeDomain) (hfit : d.layout.CycleFits) {parts p r : TimeParts}
    (hp : parts.normalize = .ok p) (hr : p.truncate d.resolution = r) :
    (∀ u, d.pack parts .up = .ok u → d.FirstAtOrAfter r u) ∧
    ((∃ j q, d.unpack j = .ok q ∧ r.compareTime q ≠ .gt) → ∃ u, d.pack parts .up = .ok u) ∧
    (∀ u, d.pack parts .down = .ok u → d.LastAtOrBefore r u) ∧
    ((∃ i q, d.unpack i = .ok q ∧ q.compareTime r ≠ .gt) →
      (∃ j q, d.unpack j = .ok q ∧ r.compareTime q ≠ .gt) → ∃ u, d.pack parts .down = .ok u) ∧
    (Word.Fits parts.year → ∀ u, d.pack parts .none = .ok u ↔ d.unpack u = .ok r) ∧
    ((∃ j q, d.unpack j = .ok q ∧ r.compareTime q ≠ .gt) → (∀ i, d.unpack i ≠ .ok r) →
      ∃ e, d.pack parts .none = .error e ∧ e.kind = .unreachableTime) ∧
    ∀ i j q q', d.unpack i = .ok q → d.unpack j = .ok q' → compare i j = q.compareTime q' := by
  have hrn : r.Normal := hr ▸ (TimeParts.normal_of_normalize hp).truncate _
  have htr : r.truncate d.resolution = r := hr ▸ TimeParts.truncate_truncate p (Nat.le_refl _)
  have hpack : ∀ a, d.pack parts a = d.pack r a := fun a => hr ▸ pack_truncate d hp a
  have hafter : ∀ {i q}, d.unpack i = .ok q → (r.compareTime q ≠ .gt ↔ r.stamp ≤ q.stamp) :=
    fun hi => TimeParts.compareTime_ne_gt_iff hrn (pack_of_unpack hi).1
  have hbefore : ∀ {i q}, d.unpack i = .ok q → (q.compareTime r ≠ .gt ↔ q.stamp ≤ r.stamp) :=
    fun hi => TimeParts.compareTime_ne_gt_iff (pack_of_unpack hi).1 hrn
  refine ⟨fun u h => ?up, ?upExists, fun u h => ?down, ?downExists, fun hyear u => ?none,
    ?unreachable, fun i j q q' => compare_unpack⟩
  case up =>
    rw [hpack] at h
    obtain ⟨⟨q, hq, hrq⟩, hfirst⟩ := pack_up_first hfit hrn htr h
    exact ⟨⟨q, hq, (hafter hq).2 hrq⟩, fun i q' hi h' => hfirst i q' hi ((hafter hi).1 h')⟩
  case upExists =>
    rintro ⟨j, q, hj, hrq⟩
    rw [hpack]
    exact pack_up_exists hfit hrn htr hj ((hafter hj).1 hrq)
  case down =>
    rw [hpack] at h
    obtain ⟨⟨q, hq, hqr⟩, hlast⟩ := pack_down_last hfit hrn htr h
    exact ⟨⟨q, hq, (hbefore hq).2 hqr⟩, fun i q' hi h' => hlast i q' hi ((hbefore hi).1 h')⟩
  case downExists =>
    rintro ⟨i, q, hi, hqr⟩ ⟨j, q', hj, hrq⟩
    rw [hpack]
    exact pack_down_exists hfit hrn htr hi ((hbefore hi).1 hqr) hj ((hafter hj).1 hrq)
  case none =>
    constructor
    · intro h
      obtain ⟨p', hp', hu⟩ := unpack_of_pack hyear h
      rw [hp, Except.ok.injEq] at hp'
      subst hp'
      rwa [← hr]
    · intro hu
      rw [hpack]
      exact (pack_of_unpack hu).2.2 .none
  case unreachable =>
    rintro ⟨j, q, hj, hrq⟩ hnot
    rw [hpack]
    exact pack_none_unreachable hfit hrn htr hj ((hafter hj).1 hrq) hnot

/-- On the 10th and the 20th of each month, the 15th of January 2024 packs up to the 20th and down
to the 10th, and without adjustment it is unreachable. The 10th and the 20th of January 2024 are
live, and the 15th is not. -/
theorem tenthAndTwentieth_packs_the_fifteenth :
    let d : TimeDomain := ⟨(Definition.ofBase .month).withSub
      (.fixed ⟨.daysOfMonth, [10, 20], by simp, by decide, by decide⟩), _, rfl,
      fun s hs => by cases hs; rfl⟩
    let t : TimeParts := { year := 2024, month := 1, day := 15 }
    d.layout.CycleFits ∧ t.normalize = .ok t ∧ t.truncate d.resolution = t ∧
      (∃ u, d.pack t .up = .ok u ∧ d.FirstAtOrAfter t u) ∧
      (∃ u, d.pack t .down = .ok u ∧ d.LastAtOrBefore t u) ∧
      ∃ e, d.pack t .none = .error e ∧ e.kind = .unreachableTime := by
  intro d t
  have hfit : d.layout.CycleFits := fun c hc => by cases hc
  have hn : t.normalize = .ok t := by decide
  have htr : t.truncate d.resolution = t := rfl
  have h10 : d.unpack 48576 = .ok { year := 2024, month := 1, day := 10 } := by decide
  have h20 : d.unpack 48577 = .ok { year := 2024, month := 1, day := 20 } := by decide
  have hnone : d.pack t .none = .error (.pattern (.missingSubPeriod 24288 15)) := by decide
  have hnot : ∀ k, d.unpack k ≠ .ok t := fun k hk => by
    have := (pack_of_unpack hk).2.2 .none
    rw [hnone] at this
    cases this
  obtain ⟨hup, hupExists, hdown, hdownExists, -, hunreachable, -⟩ := pack_nearest d hfit hn htr
  have hlater : ∃ j q, d.unpack j = .ok q ∧ t.compareTime q ≠ .gt := ⟨48577, _, h20, by decide⟩
  obtain ⟨u, hu⟩ := hupExists hlater
  obtain ⟨u', hu'⟩ := hdownExists ⟨48576, _, h10, by decide⟩ hlater
  exact ⟨hfit, hn, htr, ⟨u, hu, hup u hu⟩, ⟨u', hu', hdown u' hu'⟩, hunreachable hlater hnot⟩

end TimeDomain

end Chronology
