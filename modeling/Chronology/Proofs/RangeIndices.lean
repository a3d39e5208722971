import Chronology.Range
import Chronology.Proofs.Except
import Mathlib

/-!
# The indices of a range

A range stands for the set of indices from its first to its last, `Range.indices`, live or not.
Its operations are the operations of sets on these intervals: the intersection of two ranges of
one domain holds the indices common to both; their union holds the indices of either, and
exists exactly when those indices leave no gap, which is what it means for two intervals of
integers to join into one; the length of a range is the number of its indices.

Every empty range is kept as `[0, -1]` (`Range.Canonical`), whichever way it was built, so that
two ranges of one domain are equal exactly when they hold the same indices. The ways to build a
range, and union and intersection, leave a range in that form; `Range.Built` names the ranges
built so.

## Main definitions

* `Range.indices`: the indices from the first to the last.
* `Range.Canonical`: an empty range is `[0, -1]`.
* `Range.Built`: the ranges that the ways of building a range give.

## Main results

* `Range.union_spec`: the union of two ranges of one domain holds the indices of either, and is
  refused exactly when they do not form an interval.
* `Range.intersection_spec`: the intersection holds the indices common to both.
* `Range.Built.canonical`: every range that is built is in canonical form.
* `Range.beq_iff_indices`: ranges in canonical form are equal when their indices are.
* `Range.union_intersection_indices`: the operations of ranges are those of their index sets.
-/

namespace Chronology

namespace Range

/-- The indices from the first of a range to its last; none when the range is empty. -/
def indices (r : Range) : Set Int := Set.Icc r.first r.last

/-- A range is in canonical form when it is `[0, -1]` if it is empty. -/
def Canonical (r : Range) : Prop := r.last < r.first → r.first = 0 ∧ r.last = -1

instance (r : Range) : Decidable r.Canonical := inferInstanceAs (Decidable (_ → _))

variable {r s : Range}

@[simp] theorem mem_indices {i : Int} : i ∈ r.indices ↔ r.first ≤ i ∧ i ≤ r.last :=
  Set.mem_Icc

theorem isEmpty_eq_true : r.isEmpty = true ↔ r.last < r.first := by
  simp [isEmpty]

theorem indices_eq_empty (h : r.isEmpty = true) : r.indices = ∅ :=
  Set.Icc_eq_empty_of_lt (isEmpty_eq_true.1 h)

@[simp] theorem domain_canonical (d : TimeDomain) (a b : Int) : (canonical d a b).domain = d := by
  unfold canonical
  split <;> rfl

/-- Building a range from its bounds keeps its indices, also when it is empty. -/
@[simp] theorem indices_canonical (d : TimeDomain) (a b : Int) :
    (canonical d a b).indices = Set.Icc a b := by
  unfold canonical
  split
  · rename_i h
    simp [indices, Set.Icc_eq_empty_of_lt h]
  · rfl

/-- **A range counts its indices.** -/
theorem length_eq_ncard (r : Range) : r.length = r.indices.ncard := by
  rw [indices, Set.ncard_eq_toFinset_card', Set.toFinset_Icc, Int.card_Icc, length, isEmpty]
  split
  · rename_i h
    simp at h
    omega
  · congr 1
    omega

/-! ### Canonical form -/

theorem canonical_canonical (d : TimeDomain) (a b : Int) : (canonical d a b).Canonical := by
  unfold canonical Canonical
  split
  · exact fun _ => ⟨rfl, rfl⟩
  · rename_i h
    exact fun h' => absurd h' h

theorem ofTimes_canonical {a b : TimeIndex} (h : ofTimes a b = .ok r) : r.Canonical := by
  obtain ⟨-, -, h⟩ := bind_eq_ok.1 h
  cases h
  exact canonical_canonical _ _ _

theorem ofIndices_canonical {d : TimeDomain} {a b : Int} (h : ofIndices d a b = .ok r) :
    r.Canonical := by
  unfold ofIndices at h
  dsimp only at h
  split at h
  · obtain ⟨-, -, h⟩ := bind_eq_ok.1 h
    obtain ⟨-, -, h⟩ := bind_eq_ok.1 h
    cases h
    exact canonical_canonical _ _ _
  · cases h
    exact canonical_canonical _ _ _

theorem empty_canonical (d : TimeDomain) : (empty d).Canonical :=
  canonical_canonical _ _ _

/-! ### Two intervals of integers -/

/-- Two intervals that overlap or touch, the first starting no later, join into one. -/
theorem Icc_union_Icc_of_le_add_one {a b c d : Int} (hac : a ≤ c) (hcb : c ≤ b + 1) :
    Set.Icc a b ∪ Set.Icc c d = Set.Icc a (max b d) := by
  ext i
  simp only [Set.mem_union, Set.mem_Icc]
  omega

/-- Two non-empty intervals with a gap between them do not form an interval: the first index
of the gap is missing. -/
theorem not_ordConnected_of_gap {a b c d : Int} (hab : a ≤ b) (hgap : b + 1 < c) (hcd : c ≤ d) :
    ¬ (Set.Icc a b ∪ Set.Icc c d).OrdConnected := by
  intro h
  have hb : b ∈ Set.Icc a b ∪ Set.Icc c d := by simp; omega
  have hc : c ∈ Set.Icc a b ∪ Set.Icc c d := by simp; omega
  have := h.out hb hc (show b + 1 ∈ Set.Icc b c from ⟨by omega, by omega⟩)
  simp at this
  omega

/-! ### Union and intersection -/

theorem sameDomain_of_same (h : r.domain.Same s.domain) : r.sameDomain s = .ok () := by
  simp [sameDomain, h]

theorem sameDomain_of_not_same (h : ¬ r.domain.Same s.domain) :
    r.sameDomain s = .error (.domainMismatch r.domain.display s.domain.display) := by
  simp [sameDomain, h]

/-- The union of two non-empty ranges of one domain, the first starting no later: refused when
a gap separates them, and otherwise from the first start to the later end. -/
theorem union_of_le (h : r.domain.Same s.domain) (hr : r.isEmpty = false)
    (hs : s.isEmpty = false) (hle : r.first ≤ s.first) :
    r.union s = if 1 < s.first - r.last then .error (.disjointRanges r.display s.display)
      else .ok (canonical r.domain r.first (max r.last s.last)) := by
  simp [union, sameDomain_of_same h, hr, hs, hle]

/-- The union of two non-empty ranges of one domain, the second starting earlier. -/
theorem union_of_lt (h : r.domain.Same s.domain) (hr : r.isEmpty = false)
    (hs : s.isEmpty = false) (hlt : s.first < r.first) :
    r.union s = if 1 < r.first - s.last then .error (.disjointRanges r.display s.display)
      else .ok (canonical r.domain s.first (max s.last r.last)) := by
  simp [union, sameDomain_of_same h, hr, hs, Int.not_le.2 hlt]

theorem union_of_isEmpty_left (h : r.domain.Same s.domain) (hr : r.isEmpty = true) :
    r.union s = .ok s := by
  simp [union, sameDomain_of_same h, hr]

theorem union_of_isEmpty_right (h : r.domain.Same s.domain) (hr : r.isEmpty = false)
    (hs : s.isEmpty = true) : r.union s = .ok r := by
  simp [union, sameDomain_of_same h, hr, hs]

theorem union_of_not_same (h : ¬ r.domain.Same s.domain) :
    r.union s = .error (.domainMismatch r.domain.display s.domain.display) := by
  simp [union, sameDomain_of_not_same h]

theorem intersection_of_not_same (h : ¬ r.domain.Same s.domain) :
    r.intersection s = .error (.domainMismatch r.domain.display s.domain.display) := by
  simp [intersection, sameDomain_of_not_same h]

/-- Two non-empty ranges joined the way `union` joins them, the one starting no later first: into
the range from its start to the later end when no gap separates them, which holds the indices of
either, and refused exactly when those indices do not form an interval, the index after the end of
`a` being missing. -/
theorem join_spec {a b : Range} (ha : a.first ≤ a.last) (hb : b.first ≤ b.last)
    (hle : a.first ≤ b.first) (d : TimeDomain) (e : TimeError) :
    ((a.indices ∪ b.indices).OrdConnected → ∃ u,
      (if 1 < b.first - a.last then .error e
        else .ok (canonical d a.first (max a.last b.last)) : Except TimeError Range) = .ok u ∧
        u.indices = a.indices ∪ b.indices) ∧
    (¬ (a.indices ∪ b.indices).OrdConnected →
      (if 1 < b.first - a.last then .error e
        else .ok (canonical d a.first (max a.last b.last)) : Except TimeError Range) = .error e) := by
  by_cases hgap : 1 < b.first - a.last
  · rw [if_pos hgap]
    exact ⟨fun hc => absurd hc (not_ordConnected_of_gap ha (by omega) hb), fun _ => rfl⟩
  · have hjoin : a.indices ∪ b.indices = Set.Icc a.first (max a.last b.last) :=
      Icc_union_Icc_of_le_add_one hle (by omega)
    rw [if_neg hgap, hjoin]
    exact ⟨fun _ => ⟨_, rfl, indices_canonical d _ _⟩, fun hc => absurd Set.ordConnected_Icc hc⟩

/-- **The union of two ranges of one domain holds the indices of either**, and it is refused as
disjoint exactly when those indices do not form an interval. An empty range adds nothing, and an
empty union of indices is an interval. The range that starts first decides where a gap would lie. -/
theorem union_spec (h : r.domain.Same s.domain) :
    ((r.indices ∪ s.indices).OrdConnected →
      ∃ u, r.union s = .ok u ∧ u.indices = r.indices ∪ s.indices) ∧
    (¬ (r.indices ∪ s.indices).OrdConnected →
      r.union s = .error (.disjointRanges r.display s.display)) := by
  cases hr : r.isEmpty with
  | true =>
    have hU : r.indices ∪ s.indices = s.indices := by rw [indices_eq_empty hr, Set.empty_union]
    rw [hU, indices]
    exact ⟨fun _ => ⟨s, union_of_isEmpty_left h hr, rfl⟩, fun hc => absurd Set.ordConnected_Icc hc⟩
  | false =>
    cases hs : s.isEmpty with
    | true =>
      have hU : r.indices ∪ s.indices = r.indices := by
        rw [indices_eq_empty hs, Set.union_empty]
      rw [hU, indices]
      exact ⟨fun _ => ⟨r, union_of_isEmpty_right h hr hs, rfl⟩,
        fun hc => absurd Set.ordConnected_Icc hc⟩
    | false =>
      have hr' : r.first ≤ r.last := by simpa [isEmpty] using hr
      have hs' : s.first ≤ s.last := by simpa [isEmpty] using hs
      by_cases hle : r.first ≤ s.first
      · rw [union_of_le h hr hs hle]
        exact join_spec hr' hs' hle _ _
      · rw [union_of_lt h hr hs (by omega), Set.union_comm]
        exact join_spec hs' hr' (by omega) _ _

/-- **The intersection of two ranges of one domain holds the indices common to both.** -/
theorem intersection_spec (h : r.domain.Same s.domain) :
    ∃ i, r.intersection s = .ok i ∧ i.indices = r.indices ∩ s.indices := by
  by_cases he : r.isEmpty = true ∨ s.isEmpty = true
  · refine ⟨empty r.domain, by simp [intersection, sameDomain_of_same h, he], ?_⟩
    rcases he with he | he <;> simp [empty, indices_eq_empty he]
  · simp only [not_or, Bool.not_eq_true] at he
    refine ⟨canonical r.domain (max r.first s.first) (min r.last s.last),
      by simp [intersection, sameDomain_of_same h, he.1, he.2], ?_⟩
    ext i
    simp only [indices_canonical, Set.mem_inter_iff, Set.mem_Icc, mem_indices]
    omega

/-- The intersection of two ranges is in canonical form. -/
theorem intersection_canonical {i : Range} (h : r.intersection s = .ok i) : i.Canonical := by
  obtain ⟨-, -, h⟩ := bind_eq_ok.1 h
  split at h <;> cases h <;> exact canonical_canonical _ _ _

/-- The union of two ranges in canonical form is in canonical form: it is one of them, or built
from its bounds. -/
theorem union_canonical {u : Range} (hr : r.Canonical) (hs : s.Canonical)
    (h : r.union s = .ok u) : u.Canonical := by
  by_cases hsame : r.domain.Same s.domain
  · cases her : r.isEmpty with
    | true =>
      rw [union_of_isEmpty_left hsame her] at h
      cases h
      exact hs
    | false =>
      cases hes : s.isEmpty with
      | true =>
        rw [union_of_isEmpty_right hsame her hes] at h
        cases h
        exact hr
      | false =>
        by_cases hle : r.first ≤ s.first
        · rw [union_of_le hsame her hes hle] at h
          split at h <;> cases h
          exact canonical_canonical _ _ _
        · rw [union_of_lt hsame her hes (by omega)] at h
          split at h <;> cases h
          exact canonical_canonical _ _ _
  · rw [union_of_not_same hsame] at h
    cases h

/-- The ranges that the ways of building a range give: from two times, from two indices, the empty
range of a domain, and the union and the intersection of two ranges so built. -/
inductive Built : Range → Prop
  | ofTimes {a b : TimeIndex} {r : Range} : Range.ofTimes a b = .ok r → Built r
  | ofIndices {d : TimeDomain} {a b : Int} {r : Range} : Range.ofIndices d a b = .ok r → Built r
  | empty (d : TimeDomain) : Built (Range.empty d)
  | union {r s u : Range} : Built r → Built s → r.union s = .ok u → Built u
  | intersection {r s i : Range} : Built r → Built s → r.intersection s = .ok i → Built i

/-- **Every range that is built is in canonical form**, by induction on how it was built: each
way of building leaves that form, and union keeps it. -/
theorem Built.canonical (h : r.Built) : r.Canonical := by
  induction h with
  | ofTimes h => exact ofTimes_canonical h
  | ofIndices h => exact ofIndices_canonical h
  | empty d => exact empty_canonical d
  | union _ _ h ihr ihs => exact union_canonical ihr ihs h
  | intersection _ _ h => exact intersection_canonical h

/-! ### Equality -/

theorem beq_def : (r == s) = (decide (r.domain.Same s.domain) && r.first == s.first &&
    r.last == s.last) := rfl

/-- **Ranges of one domain in canonical form are equal exactly when they hold the same indices**; in
particular all empty ones are equal, since each is `[0, -1]`. -/
theorem beq_iff_indices (hr : r.Canonical) (hs : s.Canonical) (h : r.domain.Same s.domain) :
    (r == s) = true ↔ r.indices = s.indices := by
  simp only [beq_def, h, decide_true, Bool.true_and, Bool.and_eq_true, beq_iff_eq]
  constructor
  · rintro ⟨h1, h2⟩
    simp [indices, h1, h2]
  · intro hI
    by_cases hre : r.last < r.first
    · have hse : s.last < s.first := Int.not_le.1 fun hle => by
        have hmem : s.first ∈ r.indices := by rw [hI]; simpa using hle
        simp at hmem
        omega
      obtain ⟨h1, h2⟩ := hr hre
      obtain ⟨h3, h4⟩ := hs hse
      omega
    · exact (Set.Icc_eq_Icc_iff (Int.not_lt.1 hre)).1 hI

/-! ### Ranges as sets of indices -/

/-- **The operations of ranges are the operations of sets on their indices.** A range's length is
the number of its indices. For two ranges of one domain, the intersection holds the indices common
to both; the union exists exactly when the indices of either form an interval, holds them then, and
is refused as disjoint otherwise; and two ranges in canonical form, in particular two ranges built
from times, from indices, empty, or as unions and intersections of such ranges, are equal exactly
when they hold the same indices. Over different domains both operations are refused as a mismatch.
-/
theorem union_intersection_indices (r₁ r₂ : Range) :
    r₁.length = r₁.indices.ncard ∧
    (r₁.domain.Same r₂.domain →
      (∃ r, r₁.intersection r₂ = .ok r ∧ r.indices = r₁.indices ∩ r₂.indices) ∧
      ((∃ r, r₁.union r₂ = .ok r) ↔ (r₁.indices ∪ r₂.indices).OrdConnected) ∧
      (∀ r, r₁.union r₂ = .ok r → r.indices = r₁.indices ∪ r₂.indices) ∧
      (¬ (r₁.indices ∪ r₂.indices).OrdConnected →
        r₁.union r₂ = .error (.disjointRanges r₁.display r₂.display)) ∧
      (r₁.Canonical → r₂.Canonical → ((r₁ == r₂) = true ↔ r₁.indices = r₂.indices)) ∧
      (r₁.Built → r₂.Built → ((r₁ == r₂) = true ↔ r₁.indices = r₂.indices))) ∧
    (¬ r₁.domain.Same r₂.domain →
      r₁.union r₂ = .error (.domainMismatch r₁.domain.display r₂.domain.display) ∧
      r₁.intersection r₂ = .error (.domainMismatch r₁.domain.display r₂.domain.display)) := by
  refine ⟨length_eq_ncard r₁, fun h => ?_,
    fun h => ⟨union_of_not_same h, intersection_of_not_same h⟩⟩
  obtain ⟨hjoin, hgap⟩ := union_spec h
  refine ⟨intersection_spec h, ⟨?_, fun hc => (hjoin hc).imp fun _ hu => hu.1⟩, ?_, hgap,
    fun h₁ h₂ => beq_iff_indices h₁ h₂ h,
    fun h₁ h₂ => beq_iff_indices h₁.canonical h₂.canonical h⟩
  · rintro ⟨u, hu⟩
    by_contra hc
    rw [hgap hc] at hu
    cases hu
  · intro u hu
    by_cases hc : (r₁.indices ∪ r₂.indices).OrdConnected
    · obtain ⟨u', hu', hI⟩ := hjoin hc
      rw [hu'] at hu
      cases hu
      exact hI
    · rw [hgap hc] at hu
      cases hu

end Range

end Chronology
