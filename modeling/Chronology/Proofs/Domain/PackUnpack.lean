import Chronology.Domain.Basic
import Chronology.Proofs.Domain.Layout

/-!
# Packing and unpacking are inverse

`TimeDomain.pack` takes a time to its index: it normalises the time, counts its base periods,
compresses the count through the cycle, locates the sub-period and settles on a live index.
`TimeDomain.unpack` runs these steps backwards. This module proves that the two are inverse on
every domain: the time of an index is a normal time at the start of its step, which packs back to
the index whatever the adjustment; and the index of a time, packed without adjustment, unpacks to
the time normalised and cut down to the domain's resolution.

The second direction asks that the year of the time fit a signed 64-bit word, as every year of a
time given field by field does. It is needed for domains counted in years with a cycle and no
sub-period pattern, where nothing else bounds the year before it is expanded back through the
cycle.

## Main results

* `TimeDomain.pack_of_unpack`: the time of an index packs back to the index.
* `TimeDomain.unpack_of_pack`: an index packed without adjustment unpacks to the time, cut down.
* `TimeDomain.pack_unpack_inverse`: the two together.
-/

namespace Chronology

namespace TimeDomain

open TimeParts

/-! ### Bounds and live indices -/

theorem valid_eq_ok {d : TimeDomain} {i : Int} : d.valid i = .ok () ↔ 0 ≤ i ∧ i ≤ d.maxIndex := by
  unfold valid
  split <;> simp_all

/-- The time of an index: the index is within the bounds, and its decomposition succeeds. -/
theorem unpack_eq_ok {d : TimeDomain} {i : Int} {p : TimeParts} :
    d.unpack i = .ok p ↔ (0 ≤ i ∧ i ≤ d.maxIndex) ∧ d.layout.decompose i.toNat = .ok p := by
  unfold unpack
  rw [bind_eq_ok]
  constructor
  · rintro ⟨⟨⟩, hv, hp⟩
    exact ⟨valid_eq_ok.1 hv, hp⟩
  · rintro ⟨hv, hp⟩
    exact ⟨(), valid_eq_ok.2 hv, hp⟩

theorem maxIndex_le (d : TimeDomain) : d.maxIndex ≤ Word.max :=
  d.maxIndex_eq ▸ d.layout.maxIndex_le

/-- A live index is settled on itself, whatever the adjustment. -/
theorem settle_live {d : TimeDomain} {i : Int} {p : TimeParts} (hi : 0 ≤ i ∧ i ≤ d.maxIndex)
    (hp : d.layout.decompose i.toNat = .ok p) (a : Adjustment) : d.settle i a = .ok i := by
  cases a with
  | none => simp [settle, valid_eq_ok.2 hi, hp]
  | up => rw [settle, settleUp, dif_pos hi, hp]
  | down => rw [settle, settleDown, dif_pos hi, hp]

/-- Without adjustment an index is settled only on itself, when it is live. -/
theorem settle_none_eq_ok {d : TimeDomain} {i i' : Int} (h : d.settle i .none = .ok i') :
    (0 ≤ i ∧ i ≤ d.maxIndex) ∧ (∃ p, d.layout.decompose i.toNat = .ok p) ∧ i = i' := by
  simp only [settle, bind_eq_ok] at h
  obtain ⟨⟨⟩, hv, p, hp, h⟩ := h
  exact ⟨valid_eq_ok.1 hv, ⟨p, hp⟩, Except.ok.inj h⟩

/-! ### Packing step by step -/

/-- Packing a time whose normal form, raw index and unmoved base index are known: the base index
itself without pattern, else the settled number of the time's sub-period. -/
theorem pack_eq_of_base {d : TimeDomain} {parts p : TimeParts} {a : Adjustment} {raw b : Int}
    (hn : parts.normalize = .ok p) (hr : rawIndex p d.layout.base = .ok raw)
    (hc : d.layout.compressAdjusted raw a = .ok (b, false)) :
    d.pack parts a = (match d.layout.sub with
      | none => d.valid b >>= fun _ => pure b
      | some s => liftPat (s.locate b a p) >>= fun index => d.settle index a) := by
  unfold pack
  rw [hn, except_ok_bind, hr, except_ok_bind, hc, except_ok_bind]
  rfl

/-! ### From indices to times and back -/

/-- **The time of an index packs back to the index**: it is a normal time at the start of its step,
and packing it gives the index whatever the adjustment. The base period of the index starts at the
time its raw index counts, and the index is the number of its position within its base period. -/
theorem pack_of_unpack {d : TimeDomain} {i : Int} {p : TimeParts} (h : d.unpack i = .ok p) :
    p.Normal ∧ p.truncate d.resolution = p ∧ ∀ a, d.pack p a = .ok i := by
  obtain ⟨hi, hdec⟩ := unpack_eq_ok.1 h
  have hlive := hdec
  have hmax := d.maxIndex_le
  rw [Layout.decompose_eq] at hdec
  obtain ⟨raw, hraw, hdec⟩ := bind_eq_ok.1 hdec
  obtain ⟨parts, hparts, hfill⟩ := bind_eq_ok.1 hdec
  have hb : ((i.toNat / d.layout.size : Nat) : Int) ≤ Word.max := by
    have : i.toNat / d.layout.size ≤ i.toNat := Nat.div_le_self _ _
    omega
  obtain ⟨hraw0, hrawmax⟩ := Layout.expandBase_bounds hraw (Int.natCast_nonneg _) hb
  obtain ⟨parts', hparts', hnormal, htrunc, hcount⟩ := partsOfRaw_spec raw.toNat d.layout.base
  rw [hparts'] at hparts
  cases hparts
  have hrawIdx : rawIndex parts d.layout.base = .ok raw := by
    rw [hcount (by omega), Int.toNat_of_nonneg hraw0]
  have hcomp := Layout.compressAdjusted_expandBase hraw
  cases hs : d.layout.sub with
  | none =>
    rw [Layout.fillSub_of_sub_none hs] at hfill
    cases hfill
    have hsize : d.layout.size = 1 := Layout.size_of_sub_none hs
    have hres : d.resolution = d.layout.base := Layout.resolution_of_sub_none hs
    refine ⟨hnormal, hres ▸ htrunc, fun a => ?_⟩
    rw [pack_eq_of_base (normalize_of_normal hnormal) hrawIdx (hcomp a), hs]
    simp [hsize, Int.toNat_of_nonneg hi.1, valid_eq_ok.2 hi]
  | some s =>
    rw [Layout.fillSub_of_sub_some hs] at hfill
    have hsb : s.baseUnit = d.layout.base := d.sub_base s hs
    have hsize : d.layout.size = s.size := Layout.size_of_sub_some hs
    have hres : d.resolution = s.subUnit := Layout.resolution_of_sub_some hs
    rw [hsize] at hcomp hfill
    have hidx : ((i.toNat / s.size : Nat) : Int) * s.size + (i.toNat % s.size : Nat) = i := by
      have := Nat.div_add_mod' i.toNat s.size
      omega
    obtain ⟨hq, hsub, hbase, hloc⟩ := s.locate_fill hnormal (hsb ▸ htrunc) (liftPat_eq_ok.1 hfill)
      (Int.natCast_nonneg _) (by rw [hidx]; exact Int.le_trans hi.2 hmax)
    have hrawIdx' : rawIndex p d.layout.base = .ok raw := by
      rw [← rawIndex_truncate p _ hq.nanos_lt, ← hsb, hbase, hsb]
      exact hrawIdx
    refine ⟨hq, hres ▸ hsub, fun a => ?_⟩
    rw [pack_eq_of_base (normalize_of_normal hq) hrawIdx' (hcomp a), hs]
    simp only [hloc a, hidx, liftPat, Except.mapError, except_ok_bind]
    exact settle_live hi hlive a

/-- **An index packed without adjustment unpacks to the time**, normalised and cut down to the
domain's resolution, when the year of the time fits a word. The raw index counts from zero, and fits
a word since the year of the normal form does; the index is then the position of the time within its
base period. -/
theorem unpack_of_pack {d : TimeDomain} {q : TimeParts} {i : Int} (hyear : Word.Fits q.year)
    (h : d.pack q .none = .ok i) :
    ∃ p, q.normalize = .ok p ∧ d.unpack i = .ok (p.truncate d.resolution) := by
  unfold pack at h
  obtain ⟨p, hn, h⟩ := bind_eq_ok.1 h
  obtain ⟨raw, hr, h⟩ := bind_eq_ok.1 h
  obtain ⟨⟨b, moved⟩, hc, h⟩ := bind_eq_ok.1 h
  have hp := normal_of_normalize hn
  obtain ⟨rfl, hb0, hexp, huniq⟩ := Layout.compressAdjusted_none hc
  obtain ⟨hraw0, hrawmax⟩ := rawIndex_bounds hp hr
  have hb0 := hb0 hraw0
  refine ⟨p, hn, unpack_eq_ok.2 ?_⟩
  cases hs : d.layout.sub with
  | none =>
    simp only [hs] at h
    obtain ⟨⟨⟩, hv, h⟩ := bind_eq_ok.1 h
    cases h
    have hsize : d.layout.size = 1 := Layout.size_of_sub_none hs
    have hres : d.resolution = d.layout.base := Layout.resolution_of_sub_none hs
    refine ⟨valid_eq_ok.1 hv, ?_⟩
    rw [Layout.decompose_eq, hsize, Nat.div_one, Int.toNat_of_nonneg hb0,
      hexp (hrawmax (normalize_year_le hn hyear.2)) hraw0, except_ok_bind,
      partsOfRaw_rawIndex hp hr, except_ok_bind, hres]
    exact Layout.fillSub_of_sub_none hs _ _
  | some s =>
    simp only [hs] at h
    obtain ⟨idx, hloc, hset⟩ := bind_eq_ok.1 h
    obtain ⟨hv, ⟨p', hdec⟩, rfl⟩ := settle_none_eq_ok hset
    obtain ⟨j, hj, hidx, hfill⟩ := s.fill_locate hp (liftPat_eq_ok.1 hloc)
    have hsb : s.baseUnit = d.layout.base := d.sub_base s hs
    have hsize : d.layout.size = s.size := Layout.size_of_sub_some hs
    have hres : d.resolution = s.subUnit := Layout.resolution_of_sub_some hs
    have hdiv : idx.toNat / s.size = b.toNat ∧ idx.toNat % s.size = j := by
      obtain ⟨q', hq'⟩ := Int.eq_ofNat_of_zero_le hb0
      subst hq'
      rw [← hidx, ← Int.natCast_mul, ← Int.natCast_add, Int.toNat_natCast, Int.toNat_natCast]
      exact Cycle.div_mod_of_lt hj
    refine ⟨hv, ?_⟩
    rw [Layout.decompose_eq, hsize, hdiv.1, hdiv.2, Int.toNat_of_nonneg hb0] at hdec ⊢
    obtain ⟨raw', hraw', -⟩ := bind_eq_ok.1 hdec
    obtain rfl := huniq raw' hraw'
    rw [hraw', except_ok_bind, partsOfRaw_rawIndex hp hr, except_ok_bind, hres]
    rw [Layout.fillSub_of_sub_some hs, liftPat_eq_ok, ← hsb]
    exact hfill

/-- **Packing and unpacking are inverse on every domain.** The time of an index carries no
offset, is its own normal form, starts its step of the domain's resolution, and packs back to the
index whatever the adjustment. An index packed without adjustment, from a time whose year fits a
word, unpacks to the time normalised and cut down to the domain's resolution. -/
theorem pack_unpack_inverse (d : TimeDomain) :
    (∀ i p, d.unpack i = .ok p →
      p.offset = none ∧ p.normalize = .ok p ∧ p.truncate d.resolution = p ∧
        ∀ a, d.pack p a = .ok i) ∧
    (∀ q i, Word.Fits q.year → d.pack q .none = .ok i →
      ∃ p, q.normalize = .ok p ∧ d.unpack i = .ok (p.truncate d.resolution)) := by
  refine ⟨fun i p h => ?_, fun q i hyear h => unpack_of_pack hyear h⟩
  obtain ⟨hp, htrunc, hpack⟩ := pack_of_unpack h
  exact ⟨hp.offset_eq, normalize_of_normal hp, htrunc, hpack⟩

/-- Packing and unpacking on the 10th and the 20th of every other month, a domain with both a
cycle and a sub-period pattern, which `make` accepts as it is. Index 3 is the 20th of March of year
zero, the second position of the second ON month, and packs back to 3 with every adjustment.
`07:00` on that day at `+01:00` packs to 3 without adjustment, and 3 unpacks to that time
normalised and cut down to the day. -/
theorem pack_unpack_every_other_month :
    let d : TimeDomain := ⟨((Definition.ofBase .month).withCycle ⟨[true, false], by decide⟩).withSub
      (.fixed ⟨.daysOfMonth, [10, 20], by simp, by decide, by decide⟩), _, rfl,
      fun s hs => by cases hs; rfl⟩
    let t : TimeParts := { month := 3, day := 20, hour := 7, offset := some { hours := 1 } }
    TimeDomain.make d.definition = .ok d ∧ d.unpack 3 = .ok { month := 3, day := 20 } ∧
      (∀ a, d.pack { month := 3, day := 20 } a = .ok 3) ∧ d.pack t .none = .ok 3 ∧
      ∃ p, t.normalize = .ok p ∧ d.unpack 3 = .ok (p.truncate d.resolution) := by
  intro d t
  have hunpack : d.unpack 3 = .ok { month := 3, day := 20 } := by decide
  have hpack : d.pack t .none = .ok 3 := by decide
  exact ⟨rfl, hunpack, ((pack_unpack_inverse d).1 3 _ hunpack).2.2.2, hpack,
    (pack_unpack_inverse d).2 t 3 (by decide) hpack⟩

end TimeDomain

end Chronology
