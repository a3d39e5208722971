import Chronology.Domain.Time
import Chronology.Proofs.Order
import Chronology.Proofs.Domain.PackUnpack

/-!
# Times of a domain

A `TimeIndex` is a live index of a domain with the time it stands for. This module connects it to
packing and unpacking: the time of a `TimeIndex` is what its index unpacks to, a normal time at
the start of its step whose year fits a word, and moving it to another domain packs that time
there. Moved to the unrestricted domain of a resolution at least as fine as its own, a time keeps
its fields: the unrestricted domain has an index for every instant of its resolution, and the
time is already cut down to a coarser one.

## Main results

* `TimeIndex.parts_spec`: the time of a `TimeIndex` is normal and cut down to its resolution.
* `TimeIndex.convert_unrestricted`: moving a time to a finer unrestricted domain keeps its fields.
* `TimeIndex.convert_of_pack`: a time moves to a domain where its fields pack.
-/

namespace Chronology

open TimeParts

namespace TimeDomain

theorem resolution_unrestricted (r : Resolution) : (unrestricted r).resolution = r := rfl

theorem resolution_of_same {d e : TimeDomain} (h : d.Same e) : d.resolution = e.resolution :=
  congrArg Layout.resolution h

/-- Domains with one layout unpack alike, whatever their labels. -/
theorem unpack_congr {d e : TimeDomain} (h : d.Same e) (i : Int) : d.unpack i = e.unpack i := by
  have hmax : d.maxIndex = e.maxIndex := by
    rw [d.maxIndex_eq, e.maxIndex_eq]
    exact congrArg Layout.maxIndex h
  simp only [unpack, valid, hmax]
  rw [show d.layout = e.layout from h]

/-- The time of an index is that index of that domain. -/
theorem time_eq_ok {d : TimeDomain} {i : Int} {t : TimeIndex} (h : d.time i = .ok t) :
    t.domain = d ∧ t.index = i := by
  unfold time at h
  split at h
  · split at h
    · cases h
      exact ⟨rfl, rfl⟩
    · cases h
  · cases h

/-- Every index that unpacks has a time. -/
theorem time_of_unpack {d : TimeDomain} {i : Int} {p : TimeParts} (h : d.unpack i = .ok p) :
    ∃ t, d.time i = .ok t := by
  obtain ⟨hb, hp⟩ := unpack_eq_ok.1 h
  unfold time
  rw [dif_pos hb]
  split
  · exact ⟨_, rfl⟩
  · rename_i e he
    rw [hp] at he
    cases he

end TimeDomain

namespace TimeIndex

/-- The time of a `TimeIndex` is what its index unpacks to. -/
theorem unpack_index (t : TimeIndex) : t.domain.unpack t.index = .ok t.parts :=
  TimeDomain.unpack_eq_ok.2 ⟨t.inBounds, t.decompose_eq⟩

/-- The time of a `TimeIndex` is a normal time at the start of its step, of a year that fits a
word. -/
theorem parts_spec (t : TimeIndex) :
    t.parts.Normal ∧ t.parts.truncate t.domain.resolution = t.parts ∧ Word.Fits t.parts.year := by
  obtain ⟨hn, htr, -⟩ := TimeDomain.pack_of_unpack t.unpack_index
  have hmax := t.domain.maxIndex_le
  have hyear := t.domain.layout.decompose_year_le t.domain.sub_base t.decompose_eq
    (by have := t.inBounds; omega)
  have hy := (Gregorian.checkDate_eq_ok.1 hn.date).1
  exact ⟨hn, htr, ⟨by unfold Word.min; omega, hyear⟩⟩

/-- A time moves as it is to a domain with the layout of its own. -/
theorem convert_of_same {t : TimeIndex} {d : TimeDomain} (h : t.domain.Same d) (a : Adjustment) :
    t.convert d a = .ok t :=
  if_pos h

/-- **A time moved to the unrestricted domain of a resolution as fine as its own keeps its fields.**
The index packed unpacks to the time cut down to `r`, which leaves it as it is. -/
theorem convert_unrestricted {t t' : TimeIndex} {r : Resolution}
    (hr : t.domain.resolution.level ≤ r.level)
    (h : t.convert (TimeDomain.unrestricted r) .none = .ok t') :
    t'.domain.Same (TimeDomain.unrestricted r) ∧ t'.parts = t.parts := by
  unfold convert at h
  split at h
  · cases h
    exact ⟨‹_›, rfl⟩
  · obtain ⟨i, hpack, htime⟩ := bind_eq_ok.1 h
    obtain ⟨hdom, hidx⟩ := TimeDomain.time_eq_ok htime
    obtain ⟨hn, htr, hfit⟩ := t.parts_spec
    obtain ⟨p, hnorm, hunpack⟩ := TimeDomain.unpack_of_pack hfit hpack
    rw [normalize_of_normal hn, Except.ok.injEq] at hnorm
    subst hnorm
    have hparts := t'.unpack_index
    rw [hdom, hidx, hunpack, Except.ok.injEq, TimeDomain.resolution_unrestricted] at hparts
    refine ⟨hdom ▸ rfl, ?_⟩
    rw [← hparts, ← htr, truncate_truncate _ hr]

/-- A time moves to a domain where its fields pack without adjustment. -/
theorem convert_of_pack {t : TimeIndex} {d : TimeDomain} {i : Int}
    (h : d.pack t.parts .none = .ok i) : ∃ t', t.convert d .none = .ok t' := by
  by_cases hsame : t.domain.Same d
  · exact ⟨t, convert_of_same hsame _⟩
  · obtain ⟨p, -, hunpack⟩ := TimeDomain.unpack_of_pack t.parts_spec.2.2 h
    obtain ⟨t', ht'⟩ := TimeDomain.time_of_unpack hunpack
    refine ⟨t', ?_⟩
    simp only [convert, if_neg hsame, TimeDomain.timeOfParts, h, except_ok_bind, ht']

end TimeIndex

end Chronology
