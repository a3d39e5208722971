import Chronology.Domain.Layout
import Chronology.Proofs.Cycle
import Chronology.Proofs.RawIndex
import Chronology.Proofs.Pattern.SubPattern

/-!
# The steps of a layout

`Layout.decompose` takes an index to its time in three steps: the base index is expanded through
the cycle into a raw index, the raw index is read as the first instant of its base period, and
the position within the base period is filled in through the sub-period pattern. This module
names the first and last steps, so that a proof can follow a decomposition one step at a time,
and proves what packing needs of them: an expanded base index compresses back without moving,
and the indices of a layout fit a word.

## Main definitions

* `Layout.expandBase`: the raw index of a base index.
* `Layout.fillSub`: the time at a position of a base period.

## Main results

* `Layout.decompose_eq`: a decomposition is the three steps in turn.
* `Layout.decompose_normal`: the time of an index is normal.
* `Layout.compressAdjusted_eq_ok`: what moving a raw index off an OFF period can give.
* `Layout.compressAdjusted_expandBase`: a base index that expands compresses back to itself.
* `Layout.maxIndex_le`: the greatest index fits a word.
-/

namespace Chronology

namespace Cycle

/-- What the search of the repetition that ends at `t` finds: the dense number of an ON time of
that repetition. -/
theorem compressDown?_eq_some (c : Cycle) {t d : Int} (h : c.compressDown? t = some d) :
    ∃ i : Nat, i < c.length ∧ c.compress (t - i) = .ok d := by
  obtain ⟨i, hi, hd⟩ := List.mem_filterMap.1 (List.mem_of_mem_head? h)
  refine ⟨i, List.mem_range.1 hi, ?_⟩
  cases hc : c.compress (t - Int.ofNat i) <;> simp_all [Except.toOption]

/-- The nearest ON time at or below a time is compressed to at most that time. -/
theorem compressDown?_le (c : Cycle) {t d : Int} (h : c.compressDown? t = some d) : d ≤ t := by
  obtain ⟨i, -, hc⟩ := c.compressDown?_eq_some h
  have := c.compress_le hc
  omega

/-- **A repetition that ends at `t` and starts from zero on holds an ON time**, which the search
finds. It is the time of that repetition that sits at an ON position. -/
theorem compressDown?_isSome (c : Cycle) {t : Int} (ht : (c.length : Int) ≤ t + 1) :
    ∃ d, c.compressDown? t = some d := by
  obtain ⟨p, hp, hon⟩ := List.getElem_of_mem c.hasOn
  have hsplit := Nat.div_add_mod (t.toNat - p) c.length
  have hk : (t.toNat - p) % c.length < c.length := Nat.mod_lt _ c.length_pos
  have hlen : p < c.length := hp
  have hpos : (t - ((t.toNat - p) % c.length : Nat)).toNat % c.length = p := by
    have heq : (t - ((t.toNat - p) % c.length : Nat)).toNat =
        p + c.length * ((t.toNat - p) / c.length) := by omega
    rw [heq, Nat.add_mul_mod_self_left, Nat.mod_eq_of_lt hlen]
  have hcomp : c.compress (t - ((t.toNat - p) % c.length : Nat)) = .ok _ :=
    (Cycle.compress_eq_ok c).2 ⟨by omega, by
      rw [Cycle.isOn, hpos, List.getD_eq_getElem?_getD, List.getElem?_eq_getElem hp,
        Option.getD_some, hon], rfl⟩
  have hmem : _ ∈ (List.range c.length).filterMap
      fun (i : Nat) => (c.compress (t - Int.ofNat i)).toOption :=
    List.mem_filterMap.2 ⟨_, List.mem_range.2 hk, by rw [Int.ofNat_eq_natCast, hcomp]; rfl⟩
  exact Option.isSome_iff_exists.1 (List.isSome_head?.2 (List.ne_nil_of_mem hmem))

end Cycle

namespace Layout

/-! ### The steps of a decomposition -/

/-- The raw index of a base index: its ON time when the layout has a cycle, else itself. -/
def expandBase (l : Layout) (b : Int) : Except TimeError Int :=
  match l.cycle with
  | some c => liftPat (c.expand b)
  | none => pure b

/-- The time at a position of the base period that starts at `parts`: the sub-period the pattern
puts there, or the base period itself without pattern. -/
def fillSub (l : Layout) (j : Nat) (parts : TimeParts) : Except TimeError TimeParts :=
  match l.sub with
  | some s => liftPat (s.fill j parts)
  | none => pure parts

/-- Without pattern a base period has only itself to fill in. -/
theorem fillSub_of_sub_none {l : Layout} (hs : l.sub = none) (j : Nat) (parts : TimeParts) :
    l.fillSub j parts = .ok parts := by
  simp [fillSub, hs]

/-- With a pattern a position is filled in as the pattern fills it. -/
theorem fillSub_of_sub_some {l : Layout} {s : SubPattern} (hs : l.sub = some s) (j : Nat)
    (parts : TimeParts) : l.fillSub j parts = liftPat (s.fill j parts) := by
  simp [fillSub, hs]

/-- A decomposition expands the base index, reads its base period, and fills in the position. -/
theorem decompose_eq (l : Layout) (i : Nat) :
    l.decompose i = (do
      let raw ← l.expandBase (i / l.size : Nat)
      let parts ← partsOfRaw raw.toNat l.base
      l.fillSub (i % l.size) parts) := by
  unfold decompose expandBase fillSub
  cases l.cycle <;> cases l.sub <;> rfl

theorem size_pos (l : Layout) : 0 < l.size := by
  unfold size
  cases l.sub with
  | none => exact Nat.one_pos
  | some s =>
    cases s with
    | fixed p => exact List.length_pos_of_ne_nil p.ranks_ne_nil
    | dayRanking p => exact List.length_pos_of_ne_nil p.ranks_ne_nil

/-- Without pattern a base period has one position. -/
theorem size_of_sub_none {l : Layout} (hs : l.sub = none) : l.size = 1 := by
  simp [size, hs]

/-- With a pattern a base period has as many positions as the pattern. -/
theorem size_of_sub_some {l : Layout} {s : SubPattern} (hs : l.sub = some s) : l.size = s.size := by
  simp [size, hs]

/-- Without pattern the indices step through base periods. -/
theorem resolution_of_sub_none {l : Layout} (hs : l.sub = none) : l.resolution = l.base := by
  simp [resolution, hs]

/-- With a pattern the indices step through its sub-periods. -/
theorem resolution_of_sub_some {l : Layout} {s : SubPattern} (hs : l.sub = some s) :
    l.resolution = s.subUnit := by
  simp [resolution, hs]

/-! ### Base indices and raw indices -/

/-- Without cycle a base index is its own raw index. -/
theorem expandBase_of_cycle_none {l : Layout} (hc : l.cycle = none) (b : Int) :
    l.expandBase b = .ok b := by
  simp [expandBase, hc]

/-- With a cycle a base index expands as the cycle expands it. -/
theorem expandBase_of_cycle_some {l : Layout} {c : Cycle} (hc : l.cycle = some c) {b raw : Int} :
    l.expandBase b = .ok raw ↔ c.expand b = .ok raw := by
  simp only [expandBase, hc, liftPat_eq_ok]

/-- A base index from zero expands to a raw index from zero, which fits a word when the base index
does. -/
theorem expandBase_bounds {l : Layout} {b raw : Int} (h : l.expandBase b = .ok raw)
    (hb : 0 ≤ b) (hmax : b ≤ Word.max) : 0 ≤ raw ∧ raw ≤ Word.max := by
  cases hc : l.cycle with
  | none =>
    rw [expandBase_of_cycle_none hc, Except.ok.injEq] at h
    subst h
    exact ⟨hb, hmax⟩
  | some c =>
    obtain ⟨-, hfit, rfl⟩ := (Cycle.expand_eq_ok c).1 ((expandBase_of_cycle_some hc).1 h)
    exact ⟨Int.natCast_nonneg _, hfit.2⟩

/-- Expansion keeps the order of base indices. -/
theorem expandBase_lt {l : Layout} {b b' raw raw' : Int} (h : l.expandBase b = .ok raw)
    (h' : l.expandBase b' = .ok raw') (hlt : b < b') : raw < raw' := by
  cases hc : l.cycle with
  | none =>
    rw [expandBase_of_cycle_none hc, Except.ok.injEq] at h h'
    omega
  | some c =>
    rw [expandBase_of_cycle_some hc] at h h'
    exact c.expand_lt_expand hlt h h'

/-! ### Moving off an OFF period -/

section Compress

variable {l : Layout} {raw b : Int} {moved : Bool} {a : Adjustment}

/-- **What moving off an OFF period gives.** Without cycle a raw index is its own base index. With
one, a raw index from zero is compressed where it is when it is ON; when it is OFF it moves up to
the next ON time, if that fits a word, or down by what `Cycle.stepsDown?` finds, and is flagged as
moved. Nothing else succeeds: a negative raw index, an OFF one without adjustment, and one with no
ON time below it are refused. From a raw index from zero, the next ON time fits exactly when it is
up to the top of the word. -/
theorem compressAdjusted_eq_ok :
    l.compressAdjusted raw a = .ok (b, moved) ↔
      (l.cycle = none ∧ b = raw ∧ moved = false) ∨
      ∃ c, l.cycle = some c ∧ 0 ≤ raw ∧
        ((c.isOn raw.toNat = true ∧ c.compress raw = .ok b ∧ moved = false) ∨
          (c.isOn raw.toNat = false ∧
            ((a = .up ∧ raw + c.stepsUp raw.toNat ≤ Word.max ∧
                c.compress (raw + c.stepsUp raw.toNat) = .ok b) ∨
              ∃ k, a = .down ∧ c.stepsDown? raw.toNat = some k ∧ c.compress (raw - k) = .ok b) ∧
            moved = true)) := by
  unfold compressAdjusted
  cases hc : l.cycle with
  | none =>
    simp only [except_pure_eq, Except.ok.injEq, Prod.mk.injEq, reduceCtorEq, false_and,
      exists_false, or_false, true_and]
    constructor
    · rintro ⟨rfl, rfl⟩
      exact ⟨rfl, rfl⟩
    · rintro ⟨rfl, rfl⟩
      exact ⟨rfl, rfl⟩
  | some c =>
    by_cases hneg : raw < 0
    · simp [hneg, Int.not_le.2 hneg]
    cases hon : c.isOn raw.toNat with
    | true => simp [hneg, Int.not_lt.1 hneg, hon, bind_eq_ok]
    | false =>
      cases a with
      | none => simp [hneg, hon]
      | up =>
        have hfits : Word.Fits (raw + c.stepsUp raw.toNat) ↔
            raw + c.stepsUp raw.toNat ≤ Word.max :=
          ⟨And.right, fun h => ⟨by simp only [Word.min]; omega, h⟩⟩
        simp [hneg, Int.not_lt.1 hneg, hon, bind_eq_ok, hfits, and_assoc]
      | down =>
        cases hk : c.stepsDown? raw.toNat with
        | none => simp [hneg, hon, hk]
        | some k => simp [hneg, Int.not_lt.1 hneg, hon, hk, bind_eq_ok]

/-- A raw index from zero moves to a base index from zero. With a cycle the base index is a
compression, a count of ON times; without one it is the raw index. -/
theorem compressAdjusted_nonneg (h0 : 0 ≤ raw) (h : l.compressAdjusted raw a = .ok (b, moved)) :
    0 ≤ b := by
  rcases compressAdjusted_eq_ok.1 h with ⟨-, rfl, -⟩ | ⟨c, -, -, hcases⟩
  · exact h0
  · obtain ⟨s, hcomp⟩ : ∃ s, c.compress s = .ok b := by
      rcases hcases with ⟨-, hcomp, -⟩ | ⟨-, ⟨-, -, hcomp⟩ | ⟨k, -, -, hcomp⟩, -⟩ <;> exact ⟨_, hcomp⟩
    obtain ⟨-, -, rfl⟩ := (Cycle.compress_eq_ok c).1 hcomp
    exact Int.natCast_nonneg _

/-- **A raw index that is not moved is compressed where it is**: its base index expands back to it
when it fits a word, and to nothing else. Without cycle the base index is the raw index. -/
theorem compressAdjusted_unmoved (h : l.compressAdjusted raw a = .ok (b, false)) :
    (raw ≤ Word.max → 0 ≤ raw → l.expandBase b = .ok raw) ∧
      ∀ raw', l.expandBase b = .ok raw' → raw' = raw := by
  rcases compressAdjusted_eq_ok.1 h with ⟨hc, rfl, -⟩ | ⟨c, hc, -, ⟨-, hcomp, -⟩ | ⟨-, -, h⟩⟩
  · refine ⟨fun _ _ => expandBase_of_cycle_none hc b, fun raw' he => ?_⟩
    rw [expandBase_of_cycle_none hc, Except.ok.injEq] at he
    exact he.symm
  · refine ⟨fun hmax _ => (expandBase_of_cycle_some hc).2 (c.expand_compress hcomp hmax),
      fun raw' he => c.compress_inj (c.compress_expand ((expandBase_of_cycle_some hc).1 he)) hcomp⟩
  · cases h

/-- **A raw index that is moved is OFF**: no base index expands to it. -/
theorem compressAdjusted_moved (h : l.compressAdjusted raw a = .ok (b, true)) {b' raw' : Int}
    (he : l.expandBase b' = .ok raw') : raw' ≠ raw := by
  rcases compressAdjusted_eq_ok.1 h with ⟨-, -, h⟩ | ⟨c, hc, -, ⟨-, -, h⟩ | ⟨hoff, -, -⟩⟩
  · cases h
  · cases h
  · rintro rfl
    obtain ⟨-, hon, -⟩ :=
      (Cycle.compress_eq_ok c).1 (c.compress_expand ((expandBase_of_cycle_some hc).1 he))
    rw [hon] at hoff
    cases hoff

/-- **A base index that expands compresses back to itself**, without moving, whatever the
adjustment asked for. -/
theorem compressAdjusted_expandBase (h : l.expandBase b = .ok raw) (a : Adjustment) :
    l.compressAdjusted raw a = .ok (b, false) := by
  cases hc : l.cycle with
  | none =>
    rw [expandBase_of_cycle_none hc, Except.ok.injEq] at h
    exact compressAdjusted_eq_ok.2 (.inl ⟨hc, h, rfl⟩)
  | some c =>
    have hcomp := c.compress_expand ((expandBase_of_cycle_some hc).1 h)
    obtain ⟨h0, hon, -⟩ := (Cycle.compress_eq_ok c).1 hcomp
    exact compressAdjusted_eq_ok.2 (.inr ⟨c, hc, h0, .inl ⟨hon, hcomp, rfl⟩⟩)

/-- Without adjustment a raw index is compressed only when it is ON, without moving; its base index
expands back to it when it fits a word, and to nothing else. Only the two branches that do not move
are open without adjustment. -/
theorem compressAdjusted_none (h : l.compressAdjusted raw .none = .ok (b, moved)) :
    moved = false ∧ (0 ≤ raw → 0 ≤ b) ∧ (raw ≤ Word.max → 0 ≤ raw → l.expandBase b = .ok raw) ∧
      ∀ raw', l.expandBase b = .ok raw' → raw' = raw := by
  have hmoved : moved = false := by
    rcases compressAdjusted_eq_ok.1 h with ⟨-, -, rfl⟩ | ⟨c, -, -, ⟨-, -, rfl⟩ |
      ⟨-, ⟨h, -⟩ | ⟨k, h, -⟩, -⟩⟩
    · rfl
    · rfl
    · cases h
    · cases h
  subst hmoved
  exact ⟨rfl, fun h0 => compressAdjusted_nonneg h0 h, compressAdjusted_unmoved h⟩

end Compress

/-! ### The times of a layout -/

/-- Filling in the position keeps a normal time at the start of its base period within that
period. -/
theorem fillSub_spec {l : Layout} (hsub : ∀ s ∈ l.sub, s.baseUnit = l.base) {j : Nat}
    {parts q : TimeParts} (hparts : parts.Normal) (htr : parts.truncate l.base = parts)
    (h : l.fillSub j parts = .ok q) : q.Normal ∧ q.truncate l.base = parts := by
  unfold fillSub at h
  split at h
  · rename_i s hs
    have hbase := hsub s hs
    obtain ⟨hq, -, htq⟩ := s.fill_spec hparts (hbase ▸ htr) (liftPat_eq_ok.1 h)
    exact ⟨hq, hbase ▸ htq⟩
  · cases h
    exact ⟨hparts, htr⟩

/-- The time of an index is normal. -/
theorem decompose_normal {l : Layout} (hsub : ∀ s ∈ l.sub, s.baseUnit = l.base) {i : Nat}
    {p : TimeParts} (h : l.decompose i = .ok p) : p.Normal := by
  rw [decompose_eq] at h
  obtain ⟨raw, -, h⟩ := bind_eq_ok.1 h
  obtain ⟨parts, hparts, h⟩ := bind_eq_ok.1 h
  obtain ⟨q, hq, hnorm, htr, -⟩ := partsOfRaw_spec raw.toNat l.base
  rw [hparts, Except.ok.injEq] at hq
  subst hq
  exact (fillSub_spec hsub hnorm htr h).1

/-- The year of the time of an index that fits a word fits a word too: it is at most the raw
index of its base period. -/
theorem decompose_year_le {l : Layout} (hsub : ∀ s ∈ l.sub, s.baseUnit = l.base) {i : Nat}
    {p : TimeParts} (h : l.decompose i = .ok p) (hmax : (i : Int) ≤ Word.max) :
    p.year ≤ Word.max := by
  rw [decompose_eq] at h
  obtain ⟨raw, hraw, h⟩ := bind_eq_ok.1 h
  obtain ⟨parts, hparts, h⟩ := bind_eq_ok.1 h
  have hdiv := Nat.div_le_self i l.size
  obtain ⟨hraw0, hrawmax⟩ := expandBase_bounds hraw (Int.natCast_nonneg _) (by omega)
  obtain ⟨q, hq, hnorm, htr, hidx⟩ := partsOfRaw_spec raw.toNat l.base
  rw [hparts, Except.ok.injEq] at hq
  subst hq
  have hyear := year_le_rawIndex hnorm (hidx (by omega))
  have htrunc := (fillSub_spec hsub hnorm htr h).2
  have hsame : p.year = parts.year := by rw [← htrunc, TimeParts.truncate_year]
  omega

/-! ### The greatest index -/

/-- The last index at or below `n` that is not dead is at most `n`. -/
theorem lastNotDead_le (l : Layout) (n : Nat) : l.lastNotDead n ≤ n := by
  induction n with
  | zero =>
    unfold lastNotDead
    split <;> omega
  | succ n ih =>
    unfold lastNotDead
    split <;> omega

theorem rawLimit_le (l : Layout) : l.rawLimit ≤ Word.max / l.size := by
  unfold rawLimit
  dsimp only
  split <;> omega

theorem baseLimit_le (l : Layout) : l.baseLimit ≤ Word.max / l.size := by
  unfold baseLimit
  split
  · rename_i c _
    cases h : c.compressDown? l.rawLimit with
    | none => exact l.rawLimit_le
    | some d => exact Int.le_trans (c.compressDown?_le h) l.rawLimit_le
  · exact l.rawLimit_le

/-- **The greatest index fits a word**: the positions of the last base period are counted only
as far as they fit. -/
theorem maxIndex_le (l : Layout) : l.maxIndex ≤ Word.max := by
  have hb := l.baseLimit_le
  have hpos := l.size_pos
  have hdiv : Word.max / l.size * l.size ≤ Word.max := Int.ediv_mul_le _ (by omega)
  have hscaled : l.baseLimit * l.size ≤ Word.max :=
    Int.le_trans (Int.mul_le_mul_of_nonneg_right hb (by omega)) hdiv
  have hmax : (0 : Int) ≤ Word.max := by unfold Word.max; omega
  unfold maxIndex
  split
  · rename_i hs
    rw [size_of_sub_none hs] at hb
    simpa using hb
  · rename_i s hs
    rw [size_of_sub_some hs] at hscaled
    refine Int.le_trans (l.lastNotDead_le _) ?_
    split
    · rename_i hfit
      have := hfit.2
      omega
    · omega

end Layout

end Chronology
