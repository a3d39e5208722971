import Chronology.Pattern.Cycle
import Chronology.Proofs.Except
import Mathlib.Data.Nat.Nth

/-!
# Compressing and expanding through a cycle

A cycle numbers its ON raw times densely: `compress` counts the ON times before a raw time, and
`expand` finds the raw time of a dense number, by whole repetitions and then the ON position of
the remainder. This module proves that the two are inverse to each other and that expansion keeps
the order of dense numbers.

The ON positions of one repetition are the numbers below its length that pass a test, listed in
increasing order; the first section proves, for any such filtered range, that the `j`-th member has
exactly `j` members below it and that each member is found again at its own rank.

Both directions have a closed form that does not mention the pattern's tables: the dense number of
an ON time is the number of ON times below it (`Nat.count`), and the raw time of a dense number
`d` is the `d`-th ON time counted from zero (`Nat.nth`). The ON times repeat with the cycle, so
the count splits into whole repetitions and a remainder, as `compress` computes it.

## Main results

* `Cycle.compress_expand`: compressing the expansion of a dense number gives it back.
* `Cycle.expand_compress`: expanding the compression of an ON time gives it back.
* `Cycle.expand_lt_expand`: expansion is strictly increasing.
* `Cycle.compress_count_expand_nth`: compression is the rank of an ON time and expansion the
  time of a rank, refused as an overflow exactly when that time leaves the word.
-/

namespace Chronology

section FilteredRange

variable (P : Nat → Bool)

/-- Counting the numbers below `n` that pass `P` one number at a time. -/
theorem filter_range_succ (n : Nat) :
    (List.range (n + 1)).filter P = (List.range n).filter P ++ if P n then [n] else [] := by
  rw [List.range_succ, List.filter_append]
  by_cases h : P n <;> simp [h]

/-- The `j`-th number below `n` that passes `P` has `j` such numbers below it. -/
theorem length_filter_range_getD {n j : Nat} (hj : j < ((List.range n).filter P).length) :
    ((List.range (((List.range n).filter P).getD j 0)).filter P).length = j := by
  induction n with
  | zero => simp at hj
  | succ n ih =>
    rw [filter_range_succ] at hj ⊢
    by_cases hn : P n = true
    · simp only [hn, if_true, List.length_append, List.length_singleton] at hj ⊢
      rcases Nat.lt_or_ge j ((List.range n).filter P).length with hlt | hge
      · rw [List.getD_eq_getElem?_getD, List.getElem?_append_left hlt, ← List.getD_eq_getElem?_getD]
        exact ih hlt
      · have hj' : j = ((List.range n).filter P).length := by omega
        subst hj'
        rw [List.getD_eq_getElem?_getD, List.getElem?_append_right (Nat.le_refl _)]
        simp
    · simp only [hn, Bool.false_eq_true, if_false, List.append_nil] at hj ⊢
      exact ih hj

/-- A number below `n` that passes `P` is the one counted at its own rank. -/
theorem getD_filter_range_length {n p : Nat} (hp : p < n) (hP : P p = true) :
    ((List.range p).filter P).length < ((List.range n).filter P).length ∧
      ((List.range n).filter P).getD ((List.range p).filter P).length 0 = p := by
  induction n with
  | zero => omega
  | succ n ih =>
    rw [filter_range_succ]
    rcases Nat.lt_or_ge p n with hlt | hge
    · obtain ⟨hlen, hget⟩ := ih hlt
      refine ⟨by simp only [List.length_append]; omega, ?_⟩
      rw [List.getD_eq_getElem?_getD, List.getElem?_append_left hlen, ← List.getD_eq_getElem?_getD]
      exact hget
    · have hpn : p = n := by omega
      subst hpn
      simp only [hP, if_true, List.length_append, List.length_singleton]
      refine ⟨by omega, ?_⟩
      rw [List.getD_eq_getElem?_getD, List.getElem?_append_right (Nat.le_refl _)]
      simp

theorem getD_filter_range_mem {n j : Nat} (hj : j < ((List.range n).filter P).length) :
    ((List.range n).filter P).getD j 0 < n ∧ P (((List.range n).filter P).getD j 0) = true := by
  have hmem : ((List.range n).filter P).getD j 0 ∈ (List.range n).filter P := by
    rw [List.getD_eq_getElem?_getD, List.getElem?_eq_getElem hj]
    exact List.getElem_mem hj
  simpa using hmem

/-- The numbers that pass `P` are listed in increasing order. -/
theorem getD_filter_range_lt_getD {n i j : Nat} (hij : i < j)
    (hj : j < ((List.range n).filter P).length) :
    ((List.range n).filter P).getD i 0 < ((List.range n).filter P).getD j 0 := by
  have hsorted := (List.pairwise_lt_range (n := n)).filter P
  rw [List.getD_eq_getElem?_getD, List.getElem?_eq_getElem (by omega),
    List.getD_eq_getElem?_getD, List.getElem?_eq_getElem hj]
  exact List.pairwise_iff_getElem.1 hsorted i j (by omega) hj hij

end FilteredRange

/-- The ON positions among the first `k` of a pattern, counted two ways. -/
theorem count_take_eq_length_filter (pattern : List Bool) {k : Nat} (hk : k ≤ pattern.length) :
    (pattern.take k).count true =
      ((List.range k).filter fun i => pattern.getD i false).length := by
  induction k with
  | zero => simp
  | succ k ih =>
    rw [List.take_add_one, List.count_append, ih (by omega), filter_range_succ,
      List.length_append, List.getElem?_eq_getElem (by omega)]
    simp only [Option.toList_some, List.getD_eq_getElem?_getD, List.getElem?_eq_getElem (show k < pattern.length by omega), Option.getD_some]
    by_cases h : pattern[k] = true <;> simp [h]

namespace Cycle

variable (c : Cycle)

theorem onPositions_eq : c.onPositions = (List.range c.length).filter fun i => c.pattern.getD i false :=
  rfl

theorem onPositions_length : c.onPositions.length = c.onCount := by
  rw [onPositions_eq, length, ← count_take_eq_length_filter _ (Nat.le_refl _), List.take_length]
  rfl

/-- Expansion in closed form: whole repetitions, then the ON position of the remainder. -/
theorem expand_eq_ok {d t : Int} :
    c.expand d = .ok t ↔ 0 ≤ d ∧ Word.Fits t ∧
      t = (d.toNat / c.onCount * c.length + c.onPositions.getD (d.toNat % c.onCount) 0 : Nat) := by
  unfold expand
  by_cases hd : d < 0
  · simp only [hd, if_true, reduceCtorEq, false_iff]
    omega
  · simp only [hd, if_false, Word.within_eq_ok]
    constructor
    · rintro ⟨hfit, rfl⟩
      exact ⟨by omega, hfit, rfl⟩
    · rintro ⟨-, hfit, rfl⟩
      exact ⟨hfit, rfl⟩

/-- Compression in closed form: whole repetitions, then the ON positions before the remainder. -/
theorem compress_eq_ok {t d : Int} :
    c.compress t = .ok d ↔ 0 ≤ t ∧ c.isOn t.toNat = true ∧
      d = (t.toNat / c.length * c.onCount + (c.pattern.take (t.toNat % c.length)).count true : Nat) := by
  unfold compress
  by_cases ht : t < 0
  · simp only [ht, if_true, reduceCtorEq, false_iff]
    omega
  · by_cases hon : c.isOn t.toNat = true
    · simp only [ht, hon, if_false, if_true, Except.ok.injEq]
      constructor
      · rintro rfl
        exact ⟨by omega, trivial, rfl⟩
      · rintro ⟨-, -, rfl⟩
        rfl
    · simp [ht, hon]

/-- The raw time of a position within a repetition, and what it splits back into. -/
theorem div_mod_of_lt {q p n : Nat} (hp : p < n) : (q * n + p) / n = q ∧ (q * n + p) % n = p := by
  have hn : 0 < n := by omega
  refine ⟨?_, ?_⟩
  · rw [Nat.add_comm, Nat.add_mul_div_right _ _ hn, Nat.div_eq_of_lt hp, Nat.zero_add]
  · rw [Nat.add_comm, Nat.add_mul_mod_self_right, Nat.mod_eq_of_lt hp]

/-! ### Ranks of ON times -/

/-- ON times repeat with the cycle. -/
theorem isOn_length_add (s : Nat) : c.isOn (c.length + s) = c.isOn s := by
  simp only [isOn, Nat.add_mod_left]

/-- Within one repetition, the ON times before a position are the ON positions before it. -/
theorem count_isOn_of_le {r : Nat} (hr : r ≤ c.length) :
    Nat.count (fun s => c.isOn s = true) r = (c.pattern.take r).count true := by
  rw [count_take_eq_length_filter _ hr, Nat.count, List.countP_eq_length_filter]
  congr 1
  refine List.filter_congr fun s hs => ?_
  have hs' : s < c.length := Nat.lt_of_lt_of_le (List.mem_range.1 hs) hr
  simp only [isOn, Nat.mod_eq_of_lt hs', Bool.decide_eq_true]

/-- A whole repetition holds `onCount` ON times. -/
theorem count_isOn_length : Nat.count (fun s => c.isOn s = true) c.length = c.onCount := by
  rw [count_isOn_of_le c (Nat.le_refl _), length, List.take_length]
  rfl

/-- The ON times before a number of whole repetitions and a remainder: `onCount` in each repetition,
then those before the remainder. Each repetition in front has the same ON times as the first. -/
theorem count_isOn_mul_add (q r : Nat) :
    Nat.count (fun s => c.isOn s = true) (c.length * q + r) =
      q * c.onCount + Nat.count (fun s => c.isOn s = true) r := by
  induction q with
  | zero => simp
  | succ q ih =>
    rw [Nat.mul_succ, Nat.add_comm (c.length * q), Nat.add_assoc, Nat.count_add]
    simp only [isOn_length_add]
    rw [ih, count_isOn_length, Nat.succ_mul]
    omega

/-- The closed form of compression counts the ON times below the time. -/
theorem compression_eq_count (t : Nat) :
    t / c.length * c.onCount + (c.pattern.take (t % c.length)).count true =
      Nat.count (fun s => c.isOn s = true) t := by
  conv_rhs => rw [← Nat.div_add_mod t c.length]
  rw [count_isOn_mul_add, count_isOn_of_le c (Nat.le_of_lt (Nat.mod_lt _ c.length_pos))]

/-- Compression of a time from zero: the number of ON times below it when it is ON, refused when
it is OFF. -/
theorem compress_eq_count {t : Int} (ht : 0 ≤ t) :
    c.compress t = if c.isOn t.toNat then .ok (Nat.count (fun s => c.isOn s = true) t.toNat)
      else .error (.offCycle t) := by
  unfold compress
  rw [if_neg (by omega), ← Int.natCast_ediv, ← Int.natCast_mul, ← Int.natCast_add,
    compression_eq_count]

/-- The closed form of expansion lands on an ON time with exactly the dense number of ON times
below it: the ON position of the remainder has the remainder's rank in its repetition. -/
theorem expansion_spec (d : Nat) :
    c.isOn (d / c.onCount * c.length + c.onPositions.getD (d % c.onCount) 0) = true ∧
      Nat.count (fun s => c.isOn s = true)
        (d / c.onCount * c.length + c.onPositions.getD (d % c.onCount) 0) = d := by
  have hj : d % c.onCount < c.onPositions.length := by
    rw [onPositions_length]
    exact Nat.mod_lt _ c.onCount_pos
  obtain ⟨hp, hon⟩ := getD_filter_range_mem _ hj
  have hrank := length_filter_range_getD _ hj
  rw [← onPositions_eq] at hp hon hrank
  obtain ⟨hdiv, hmod⟩ := div_mod_of_lt (q := d / c.onCount) hp
  refine ⟨by simp only [isOn, hmod, hon], ?_⟩
  rw [← compression_eq_count, hdiv, hmod, count_take_eq_length_filter _ (Nat.le_of_lt hp), hrank]
  have := Nat.div_add_mod d c.onCount
  rw [Nat.mul_comm] at this
  omega

/-- The `d`-th ON time, counted from zero, is the closed form of expansion. -/
theorem nth_isOn (d : Nat) :
    Nat.nth (fun s => c.isOn s = true) d =
      d / c.onCount * c.length + c.onPositions.getD (d % c.onCount) 0 := by
  obtain ⟨hon, hcount⟩ := c.expansion_spec d
  conv_lhs => rw [← hcount]
  exact Nat.nth_count hon

/-- Expansion of a dense number from zero: the ON time of that rank, refused as an overflow
exactly when it leaves the word. -/
theorem expand_eq_nth {d : Int} (hd : 0 ≤ d) :
    c.expand d = if (Nat.nth (fun s => c.isOn s = true) d.toNat : Int) ≤ Word.max then
        .ok (Nat.nth (fun s => c.isOn s = true) d.toNat : Int)
      else .error (.overflow .cycleExpansion) := by
  unfold expand
  rw [if_neg (by omega), ← Int.natCast_ediv, ← Int.natCast_mul, ← Int.natCast_add, ← nth_isOn,
    Word.within_of_nonneg _ (Int.natCast_nonneg _)]

/-! ### The two directions -/

/-- **Compressing an expanded time gives back the dense number.** -/
theorem compress_expand {d t : Int} (h : c.expand d = .ok t) : c.compress t = .ok d := by
  obtain ⟨hd, -, rfl⟩ := (expand_eq_ok c).1 h
  obtain ⟨hon, hcount⟩ := c.expansion_spec d.toNat
  rw [compress_eq_count c (Int.natCast_nonneg _), Int.toNat_natCast, if_pos hon, hcount,
    Int.toNat_of_nonneg hd]

/-- The closed form of expansion takes the dense number of an ON time back to the time, before
any bound is checked. -/
theorem expansion_compress {t d : Int} (h : c.compress t = .ok d) :
    0 ≤ d ∧ ((d.toNat / c.onCount * c.length + c.onPositions.getD (d.toNat % c.onCount) 0 : Nat) : Int) = t := by
  obtain ⟨h0, hon, rfl⟩ := (compress_eq_ok c).1 h
  have hp : t.toNat % c.length < c.length := Nat.mod_lt _ c.length_pos
  obtain ⟨hlt, hget⟩ := getD_filter_range_length (fun i => c.pattern.getD i false) hp hon
  rw [← onPositions_eq, onPositions_length] at hlt
  rw [← onPositions_eq] at hget
  rw [count_take_eq_length_filter _ (Nat.le_of_lt hp)]
  obtain ⟨hdiv, hmod⟩ := div_mod_of_lt (q := t.toNat / c.length) hlt
  refine ⟨by omega, ?_⟩
  rw [Int.toNat_natCast, hdiv, hmod, hget]
  have := Nat.div_add_mod t.toNat c.length
  rw [Nat.mul_comm] at this
  omega

/-- **Expanding the dense number of an ON time gives back the time,** which fits a word. -/
theorem expand_compress {t d : Int} (h : c.compress t = .ok d) (ht : t ≤ Word.max) :
    c.expand d = .ok t := by
  obtain ⟨hd, hexp⟩ := c.expansion_compress h
  have h0 := ((compress_eq_ok c).1 h).1
  exact (expand_eq_ok c).2 ⟨hd, ⟨by simp only [Word.min]; omega, ht⟩, hexp.symm⟩

/-- Two ON times with one dense number are one time. -/
theorem compress_inj {t t' d : Int} (h : c.compress t = .ok d) (h' : c.compress t' = .ok d) :
    t = t' :=
  (c.expansion_compress h).2.symm.trans (c.expansion_compress h').2

/-- The dense number of an ON time is at most the time: OFF times are left out. -/
theorem compress_le {t d : Int} (h : c.compress t = .ok d) : d ≤ t := by
  obtain ⟨h0, -, rfl⟩ := (compress_eq_ok c).1 h
  have hon : c.onCount ≤ c.length := List.count_le_length
  have htake : (c.pattern.take (t.toNat % c.length)).count true ≤ t.toNat % c.length :=
    Nat.le_trans List.count_le_length (List.length_take_le _ _)
  have hmul : t.toNat / c.length * c.onCount ≤ t.toNat / c.length * c.length :=
    Nat.mul_le_mul_left _ hon
  have := Nat.div_add_mod t.toNat c.length
  rw [Nat.mul_comm] at this
  omega

/-- The closed form of expansion is increasing: a later repetition starts after every position of
an earlier one, and within one repetition the ON positions come in order. -/
theorem expansion_lt {a b : Nat} (hab : a < b) :
    a / c.onCount * c.length + c.onPositions.getD (a % c.onCount) 0 <
      b / c.onCount * c.length + c.onPositions.getD (b % c.onCount) 0 := by
  have hk := c.onCount_pos
  have hj : a % c.onCount < c.onPositions.length := by
    rw [onPositions_length]; exact Nat.mod_lt _ hk
  have hj' : b % c.onCount < c.onPositions.length := by
    rw [onPositions_length]; exact Nat.mod_lt _ hk
  have hp := (getD_filter_range_mem _ hj).1
  rw [← onPositions_eq] at hp
  have hsplit := Nat.div_add_mod a c.onCount
  have hsplit' := Nat.div_add_mod b c.onCount
  have hq : a / c.onCount ≤ b / c.onCount := Nat.div_le_div_right (by omega)
  rcases Nat.lt_or_eq_of_le hq with hq | hq
  · have hstep : (a / c.onCount + 1) * c.length ≤ b / c.onCount * c.length :=
      Nat.mul_le_mul_right _ hq
    rw [Nat.add_mul, Nat.one_mul] at hstep
    omega
  · rw [hq] at hsplit ⊢
    have hjj : a % c.onCount < b % c.onCount := by omega
    have := getD_filter_range_lt_getD (fun i => c.pattern.getD i false) hjj
      (by rw [← onPositions_eq]; exact hj')
    rw [← onPositions_eq] at this
    omega

/-- Expansion keeps the order of dense numbers. -/
theorem expand_lt_expand {d d' t t' : Int} (hlt : d < d') (h : c.expand d = .ok t)
    (h' : c.expand d' = .ok t') : t < t' := by
  obtain ⟨hd, -, rfl⟩ := (expand_eq_ok c).1 h
  obtain ⟨hd', -, rfl⟩ := (expand_eq_ok c).1 h'
  have := c.expansion_lt (show d.toNat < d'.toNat by omega)
  omega

/-- Below a dense number that expands, every dense number from zero expands too, to an earlier
time: the bound on the word is checked only once, at the top. -/
theorem expand_of_le {d t b : Int} (h : c.expand d = .ok t) (hb : 0 ≤ b) (hbd : b ≤ d) :
    ∃ t', c.expand b = .ok t' ∧ t' ≤ t := by
  obtain ⟨hd, hfit, rfl⟩ := (expand_eq_ok c).1 h
  have hle : b.toNat / c.onCount * c.length + c.onPositions.getD (b.toNat % c.onCount) 0 ≤
      d.toNat / c.onCount * c.length + c.onPositions.getD (d.toNat % c.onCount) 0 := by
    rcases Int.lt_or_eq_of_le hbd with hlt | rfl
    · exact Nat.le_of_lt (c.expansion_lt (show b.toNat < d.toNat by omega))
    · exact Nat.le_refl _
  have hmax := hfit.2
  refine ⟨_, (expand_eq_ok c).2 ⟨hb, ⟨?_, by omega⟩, rfl⟩, by omega⟩
  simp only [Word.min]
  omega

/-- **Compression is the rank of an ON time, and expansion the time of a rank.** For a time `t`
from zero, `compress t` is the number of ON times below `t` when `t` is ON and is refused as OFF
otherwise, and it never exceeds `t`; for a dense number `d` from zero, `expand d` is the `d`-th
ON time counted from zero, refused as an overflow exactly when that time leaves the word. So
expanding the compression of an ON time in the word gives it back, and compressing an expansion
gives back the dense number, which is at most its time. -/
theorem compress_count_expand_nth :
    (∀ t : Int, 0 ≤ t → c.compress t =
      if c.isOn t.toNat then .ok (Nat.count (fun s => c.isOn s = true) t.toNat)
      else .error (.offCycle t)) ∧
    (∀ t d : Int, c.compress t = .ok d → 0 ≤ d ∧ d ≤ t) ∧
    (∀ d : Int, 0 ≤ d → c.expand d =
      if (Nat.nth (fun s => c.isOn s = true) d.toNat : Int) ≤ Word.max then
        .ok (Nat.nth (fun s => c.isOn s = true) d.toNat : Int)
      else .error (.overflow .cycleExpansion)) ∧
    (∀ t d : Int, c.compress t = .ok d → t ≤ Word.max → c.expand d = .ok t) ∧
    (∀ d t : Int, c.expand d = .ok t → c.compress t = .ok d ∧ d ≤ t) :=
  ⟨fun _ ht => c.compress_eq_count ht,
    fun _ _ h => ⟨(c.expansion_compress h).1, c.compress_le h⟩,
    fun _ hd => c.expand_eq_nth hd,
    fun _ _ h ht => c.expand_compress h ht,
    fun _ _ h => ⟨c.compress_expand h, c.compress_le (c.compress_expand h)⟩⟩

end Cycle

end Chronology
