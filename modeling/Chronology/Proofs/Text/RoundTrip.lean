import Chronology.Text.Format
import Chronology.Proofs.Text.Reader
import Chronology.Proofs.Domain.Time

/-!
# Written times read back

A time written at a resolution is read back as the time cut down to that resolution, and so the
text of every time of a domain names that time again.

Reading follows the preferred reading of the extended form one piece at a time. The plus sign is
read when written, and never taken from a year, whose first character is a digit. The year is the
longest run of digits, and the run ends at the separator of the month or at the end of the text.
Each field down to the resolution is its separator and two digits, which the optional reader of
that field reads in preference to leaving it; past the resolution nothing is written, so every
optional reader after it reads nothing, and no offset follows. In particular `-06` after a year
is read as a month: the month comes before the offset in the extended form, and it is the
preferred reading.

The values read are those written: padded digits are worth their number, a year of more than four
digits is written with its plus sign, and the fraction is the leading digits of the nanoseconds,
which puts back the nanoseconds cut down to whole units of the resolution. Nothing here needs the
fields to be those of a date or a time of day: two digits suffice for each, and the year need only
be non-negative and fit a word.

## Main definitions

* `Text.writtenText`: the fields of a time written at a resolution, digit by digit.

## Main results

* `Text.head?_extended`: the preferred reading of a written time reads it whole, field by field.
* `Text.scan_formatTime`: a written time is read back as the time cut down to its resolution.
* `TimeIndex.timeOfText_text`: the text of a time of a domain names that time.
* `written_time_round_trip`: both together.
-/

namespace Chronology

namespace Resolution

theorem fractionDigits_le (r : Resolution) : r.fractionDigits ≤ 9 := by
  cases r <;> decide

theorem level_of_fractionDigits {r : Resolution} (h : 0 < r.fractionDigits) : 6 ≤ r.level := by
  cases r <;> simp_all [fractionDigits, level]

end Resolution

namespace Text

open Reader

/-! ### The pieces of a written time -/

/-- The characters of a field of a written time: its separator and two digits, when shown. -/
def fieldChars (shown : Bool) (sep : Char) (value : Nat) : List Char :=
  if shown then sep :: (padNat 2 value).toList else []

/-- The characters of the fraction of a written time, when its resolution has fraction digits. -/
def fractionChars (digits nanos : Nat) : List Char :=
  if 0 < digits then '.' :: (padNat digits (nanos / Nat.pow 10 (9 - digits))).toList else []

theorem toList_formatTime (p : TimeParts) (r : Resolution) :
    (formatTime p r).toList =
      ((if 9999 < p.year then ['+'] else []) ++ (padInt 4 p.year).toList) ++
        (fieldChars (decide (1 ≤ r.level)) '-' p.month ++
          (fieldChars (decide (2 ≤ r.level)) '-' p.day ++
            (fieldChars (decide (3 ≤ r.level)) ' ' p.hour ++
              (fieldChars (decide (4 ≤ r.level)) ':' p.minute ++
                (fieldChars (decide (5 ≤ r.level)) ':' p.second ++
                  fractionChars r.fractionDigits p.nanos))))) := by
  simp only [formatTime, String.toList_append, apply_ite String.toList, String.toList_empty,
    fieldChars, fractionChars, List.append_assoc]
  rfl

theorem fieldChars_hidden {k : Nat} {r : Resolution} (h : r.level < k) (sep : Char) (v : Nat) :
    fieldChars (decide (k ≤ r.level)) sep v = [] := by
  simp [fieldChars, Nat.not_le.2 h]

theorem fractionChars_hidden {r : Resolution} (h : r.level < 6) (n : Nat) :
    fractionChars r.fractionDigits n = [] := by
  have : ¬0 < r.fractionDigits := fun hpos => by
    have := Resolution.level_of_fractionDigits hpos
    omega
  simp [fractionChars, this]

/-- The leading `d` of the nine digits of the nanoseconds. -/
theorem fraction_lt {d n : Nat} (hd : d ≤ 9) (hn : n < 10 ^ 9) :
    n / Nat.pow 10 (9 - d) < 10 ^ d := by
  have hpow : 10 ^ d * Nat.pow 10 (9 - d) = 10 ^ 9 := by
    rw [Nat.pow_eq, ← Nat.pow_add, Nat.add_sub_cancel' hd]
  have hk : 0 < Nat.pow 10 (9 - d) := Nat.pow_pos (by decide)
  rw [Nat.div_lt_iff_lt_mul hk, hpow]
  exact hn

/-! ### Reading the pieces back -/

/-- A plus sign is read when written before the digits of the year. A digit is no plus sign. -/
theorem head?_opt_plus (P : Prop) [Decidable P] {c : Char} {cs : List Char}
    (hc : c.isDigit = true) (tail : List Char) :
    (opt (char (· == '+')) ((if P then ['+'] else []) ++ (c :: cs) ++ tail)).head? =
      some (if P then some '+' else none, c :: cs ++ tail) := by
  by_cases hP : P
  · simp only [if_pos hP]
    exact head?_opt (by rw [List.singleton_append, List.cons_append, char_cons rfl]; rfl)
  · simp only [if_neg hP, List.nil_append]
    refine head?_opt_of_eq_nil ?_
    have hplus : (c == '+') = false :=
      Bool.eq_false_iff.2 fun h => by rw [beq_iff_eq.1 h] at hc; exact absurd hc (by decide)
    exact char_cons_of_false (· == '+') hplus _

/-- **A shown field is read as its separator and its two digits**, and what follows it by the
optional reader after it; a hidden field, with nothing after it, is not read. -/
theorem head?_opt_field {γ : Type} {test : Char → Bool} {sep : Char} (hsep : test sep = true)
    {inner : Reader γ} {shown : Bool} {v : Nat} (hv : v ≤ 99) {tail : List Char} {o : Option γ}
    (htail : (opt inner tail).head? = some (o, [])) (hno : shown = false → tail = []) :
    (opt (do
        let _ ← char test
        let x ← digits 2
        let rest ← opt inner
        pure (x, rest)) (fieldChars shown sep v ++ tail)).head? =
      some (if shown then some ((padNat 2 v).toList, o) else none, []) := by
  cases shown with
  | false =>
    rw [hno rfl]
    exact head?_opt_of_eq_nil rfl
  | true =>
    apply head?_opt
    simp only [fieldChars, if_true, List.cons_append]
    refine head?_bind (by rw [char_cons hsep]; rfl) ?_
    have hlen : (padNat 2 v).toList.length = 2 := length_padNat (by decide) (by omega)
    refine head?_bind (by rw [digits_append hlen (fun _ => isDigit_of_mem_padNat)]; rfl) ?_
    exact head?_bind htail (head?_pure _ _)

/-- The fraction is read as its point and its digits. -/
theorem head?_opt_fractionPart {d n : Nat} (hd : d ≤ 9) (hn : n < 10 ^ 9) :
    (opt fractionPart (fractionChars d n)).head? =
      some (if 0 < d then some (padNat d (n / Nat.pow 10 (9 - d))).toList else none, []) := by
  by_cases hpos : 0 < d
  · simp only [fractionChars, if_pos hpos]
    apply head?_opt
    refine head?_bind (by rw [char_cons rfl]; rfl) ?_
    have hlen := length_padNat hpos (fraction_lt hd hn)
    have hread : (digitsBetween 1 (some 9)
        ((padNat d (n / Nat.pow 10 (9 - d))).toList ++ [])).head? =
          some ((padNat d (n / Nat.pow 10 (9 - d))).toList, []) :=
      head?_digitsBetween (by omega) (fun h hh => by simp at hh; omega)
        (fun _ => isDigit_of_mem_padNat) (by simp)
    rw [List.append_nil] at hread
    exact hread
  · simp only [fractionChars, if_neg hpos]
    exact head?_opt_of_eq_nil rfl

/-- The fields of a time written at a resolution, digit by digit: the year, the fields down to the
resolution, and the fraction when the resolution has one. -/
def writtenText (p : TimeParts) (r : Resolution) : TimeText :=
  let shown (k : Nat) (value : Nat) : Option (List Char) :=
    if k ≤ r.level then some (padNat 2 value).toList else none
  { plus := decide (9999 < p.year), year := (padInt 4 p.year).toList,
    month := shown 1 p.month, day := shown 2 p.day, hour := shown 3 p.hour,
    minute := shown 4 p.minute, second := shown 5 p.second,
    fraction := if 0 < r.fractionDigits then
      some (padNat r.fractionDigits (p.nanos / Nat.pow 10 (9 - r.fractionDigits))).toList
    else none }

/-- **The preferred reading of a written time reads it whole**, field by field. The year ends at the
month's separator or at the end of the text, no offset follows, and a field is hidden only when
every field after it is. -/
theorem head?_extended (p : TimeParts) (r : Resolution) (hy : 0 ≤ p.year) (hm : p.month ≤ 99)
    (hd : p.day ≤ 99) (hh : p.hour ≤ 99) (hmi : p.minute ≤ 99) (hs : p.second ≤ 99)
    (hn : p.nanos < 10 ^ 9) :
    (extended (formatTime p r).toList).head? = some (writtenText p r, []) := by
  obtain ⟨c, cs, hcs⟩ := exists_cons_padNat (by decide : 0 < 4) p.year.toNat
  have hc : c.isDigit = true := isDigit_of_mem_padNat (hcs ▸ List.mem_cons_self)
  rw [toList_formatTime, padInt_of_nonneg hy, hcs]
  unfold extended
  refine head?_bind (head?_opt_plus _ hc _) ?_
  refine head?_bind (head?_digitsBetween (by simp [← hcs, padNat]; omega) (by simp)
    (fun x hx => isDigit_of_mem_padNat (hcs ▸ hx)) ?_) ?_
  · by_cases h1 : 1 ≤ r.level
    · simp [fieldChars, h1]
    · simp (disch := omega) only [fieldChars_hidden, fractionChars_hidden, List.append_nil]
      simp
  have hfd := r.fractionDigits_le
  refine head?_bind (head?_opt_field (by decide) hm (head?_opt_field (by decide) hd
    (head?_opt_field (by decide) hh (head?_opt_field (by decide) hmi
      (head?_opt_field (by decide) hs (head?_opt_fractionPart hfd hn) ?_) ?_) ?_) ?_) ?_) ?_
  rotate_right
  · refine head?_bind (head?_opt_of_eq_nil rfl) ?_
    refine head?_bind (by rw [finish_nil]; rfl) ?_
    refine (head?_pure _ _).trans ?_
    have hplus : (if 9999 < p.year then some '+' else none).isSome = decide (9999 < p.year) := by
      split <;> simp_all
    simp only [writtenText, padInt_of_nonneg hy, hcs, hplus]
    cases r <;> simp [Resolution.level, Resolution.fractionDigits]
  all_goals
    intro h
    simp only [decide_eq_false_iff_not, Nat.not_le] at h
    simp (disch := omega) only [fieldChars_hidden, fractionChars_hidden, List.append_nil]

/-! ### The values read -/

theorem fieldValue_written (shown : Prop) [Decidable shown] (v default : Nat) :
    fieldValue (if shown then some (padNat 2 v).toList else none) default =
      if shown then v else default := by
  split <;> simp [fieldValue, digitValue_padNat]

/-- The fraction read puts back the nanoseconds cut down to whole units. -/
theorem fractionNanos_written {d n : Nat} (hd : d ≤ 9) (hn : n < 10 ^ 9) :
    fractionNanos (if 0 < d then some (padNat d (n / Nat.pow 10 (9 - d))).toList else none) =
      if 0 < d then n / Nat.pow 10 (9 - d) * Nat.pow 10 (9 - d) else 0 := by
  split
  · rename_i hpos
    simp only [fractionNanos]
    rw [length_padNat hpos (fraction_lt hd hn), digitValue_padNat]
  · rfl

/-- A year of four digits or fewer is written without a plus sign. -/
theorem length_padNat_four {n : Nat} (h : 4 < (padNat 4 n).toList.length) : 9999 < n := by
  refine Nat.lt_of_not_le fun hle => ?_
  rw [length_padNat (by decide) (by omega)] at h
  omega

/-- **The fields written stand for the time cut down to the resolution.** A long year carries its
plus sign, and the digits of the year are worth it. -/
theorem toParts_writtenText (p : TimeParts) (r : Resolution) (hy : 0 ≤ p.year)
    (hymax : p.year ≤ Word.max) (hn : p.nanos < 10 ^ 9) (ho : p.offset = none) (input : String) :
    (writtenText p r).toParts input = .ok (p.truncate r) := by
  have hplus : ¬(4 < (padInt 4 p.year).toList.length ∧ !decide (9999 < p.year)) := by
    rw [padInt_of_nonneg hy]
    rintro ⟨hlen, hsmall⟩
    have := length_padNat_four hlen
    simp only [Bool.not_eq_true', decide_eq_false_iff_not] at hsmall
    omega
  have hval : ((digitValue (padInt 4 p.year).toList : Nat) : Int) = p.year := by
    rw [padInt_of_nonneg hy, digitValue_padNat, Int.toNat_of_nonneg hy]
  obtain ⟨year, month, day, hour, minute, second, nanos, offset⟩ := p
  simp only at hy hymax hn ho hplus hval
  subst ho
  simp only [TimeText.toParts, writtenText, hplus, if_false, hval, Int.not_lt.2 hymax,
    fieldValue_written, fractionNanos_written r.fractionDigits_le hn]
  cases r <;> simp [TimeParts.truncate, Resolution.level, Resolution.fractionDigits]

/-! ### No blanks around a written time -/

theorem getLast?_append_isDigit {l l' : List Char} (h : ∀ c ∈ l.getLast?, c.isDigit = true)
    (h' : ∀ c ∈ l'.getLast?, c.isDigit = true) :
    ∀ c ∈ (l ++ l').getLast?, c.isDigit = true := by
  intro c hc
  rw [List.getLast?_append] at hc
  cases hl' : l'.getLast? with
  | none =>
    rw [hl', Option.none_or] at hc
    exact h c hc
  | some x =>
    rw [hl', Option.some_or, Option.mem_def, Option.some.injEq] at hc
    exact hc ▸ h' x hl'

theorem getLast?_append_padNat {w : Nat} (hw : 0 < w) (pre : List Char) (n : Nat) :
    ∀ c ∈ (pre ++ (padNat w n).toList).getLast?, c.isDigit = true := by
  obtain ⟨d, ds, hds⟩ := exists_cons_padNat hw n
  obtain ⟨x, hx⟩ := Option.ne_none_iff_exists'.1
    (mt List.getLast?_eq_none_iff.1 (hds ▸ List.cons_ne_nil d ds))
  intro c hc
  rw [List.getLast?_append, hx, Option.some_or, Option.mem_def, Option.some.injEq] at hc
  exact hc ▸ isDigit_of_mem_padNat (List.mem_of_getLast? hx)

/-- A written time ends with a digit: of the fraction, of the last field shown, or of the
year. -/
theorem getLast?_formatTime_isDigit (p : TimeParts) (r : Resolution) (hy : 0 ≤ p.year) :
    ∀ c ∈ (formatTime p r).toList.getLast?, c.isDigit = true := by
  have hfield : ∀ shown sep v, ∀ c ∈ (fieldChars shown sep v).getLast?, c.isDigit = true := by
    intro shown sep v
    cases shown
    · simp [fieldChars]
    · exact getLast?_append_padNat (by decide) [sep] v
  have hfraction :
      ∀ c ∈ (fractionChars r.fractionDigits p.nanos).getLast?, c.isDigit = true := by
    unfold fractionChars
    split
    · exact getLast?_append_padNat ‹_› ['.'] _
    · simp
  rw [toList_formatTime, padInt_of_nonneg hy]
  refine getLast?_append_isDigit (getLast?_append_padNat (by decide) _ _) ?_
  refine getLast?_append_isDigit (hfield _ _ _) ?_
  refine getLast?_append_isDigit (hfield _ _ _) ?_
  refine getLast?_append_isDigit (hfield _ _ _) ?_
  refine getLast?_append_isDigit (hfield _ _ _) ?_
  exact getLast?_append_isDigit (hfield _ _ _) hfraction

/-- A written time starts with its plus sign or the first digit of its year. -/
theorem head?_formatTime_not_blank (p : TimeParts) (r : Resolution) (hy : 0 ≤ p.year) :
    ∀ c ∈ (formatTime p r).toList.head?, isBlank c = false := by
  obtain ⟨c, cs, hcs⟩ := exists_cons_padNat (by decide : 0 < 4) p.year.toNat
  have hc : c.isDigit = true := isDigit_of_mem_padNat (hcs ▸ List.mem_cons_self)
  rw [toList_formatTime, padInt_of_nonneg hy, hcs]
  intro x hx
  split at hx
  · simp only [List.cons_append, List.nil_append, List.head?_cons, Option.mem_def,
      Option.some.injEq] at hx
    subst hx
    decide
  · simp only [List.nil_append, List.cons_append, List.head?_cons, Option.mem_def,
      Option.some.injEq] at hx
    exact hx ▸ isBlank_of_isDigit hc

/-! ### The round trip -/

/-- **A written time is read back as the time cut down to its resolution.** -/
theorem scan_formatTime (p : TimeParts) (r : Resolution) (hy : 0 ≤ p.year)
    (hymax : p.year ≤ Word.max) (hm : p.month ≤ 99) (hd : p.day ≤ 99) (hh : p.hour ≤ 99)
    (hmi : p.minute ≤ 99) (hs : p.second ≤ 99) (hn : p.nanos < 10 ^ 9) (ho : p.offset = none) :
    scan (formatTime p r) = .ok (p.truncate r) := by
  have htrim : trimBlankList (formatTime p r).toList = (formatTime p r).toList :=
    trimBlankList_eq_self (head?_formatTime_not_blank p r hy)
      fun c hc => isBlank_of_isDigit (getLast?_formatTime_isDigit p r hy c hc)
  unfold scan
  simp only [htrim, firstReading_of_head? (head?_extended p r hy hm hd hh hmi hs hn)]
  exact toParts_writtenText p r hy hymax hn ho _

end Text

namespace TimeDomain

/-- A time is the time of its own index. -/
theorem time_index (t : TimeIndex) : t.domain.time t.index = .ok t := by
  obtain ⟨d, i, p, hb, hp⟩ := t
  unfold time
  rw [dif_pos hb]
  split
  · rename_i q hq
    rw [hp, Except.ok.injEq] at hq
    subst hq
    rfl
  · rename_i e he
    rw [hp] at he
    cases he

end TimeDomain

namespace TimeIndex

/-- The text of a time is read back as its own time. -/
theorem scan_text (t : TimeIndex) : Text.scan t.text = .ok t.parts := by
  obtain ⟨hn, htr, hfit⟩ := t.parts_spec
  obtain ⟨hy, -, hm, -, hd⟩ := Gregorian.checkDate_eq_ok.1 hn.date
  have hml := Gregorian.monthLength_le (Gregorian.isLeap t.parts.year) t.parts.month hm
  have hh := hn.hour_le
  have hmi := hn.minute_le
  have hs := hn.second_le
  have hnanos : t.parts.nanos < 10 ^ 9 := by simpa [nanosPerSecond] using hn.nanos_lt
  rw [text, TimeDomain.format, Text.scan_formatTime t.parts _ hy hfit.2 (by omega) (by omega)
    (by omega) (by omega) (by omega) hnanos hn.offset_eq, htr]

/-- **The text of a time of a domain names that time again.** -/
theorem timeOfText_text {d : TimeDomain} {i : Int} {t : TimeIndex} (h : d.time i = .ok t) :
    d.timeOfText t.text .none = .ok t := by
  obtain ⟨hdom, -⟩ := TimeDomain.time_eq_ok h
  subst hdom
  obtain ⟨-, -, hpack⟩ := TimeDomain.pack_of_unpack t.unpack_index
  simp only [TimeDomain.timeOfText, t.scan_text, except_ok_bind, TimeDomain.timeOfParts,
    hpack, TimeDomain.time_index]

end TimeIndex

/-! ### The text form round-trips -/

/-- **The text form round-trips**: a time with a non-negative year that fits a word, fields of at
most two digits, nanoseconds below a second and no offset, written at any resolution, is read back
as the time cut down to that resolution; and the text of every time of a domain names that time
again. -/
theorem written_time_round_trip :
    (∀ (p : TimeParts) (r : Resolution), 0 ≤ p.year → p.year ≤ Word.max → p.month ≤ 99 →
        p.day ≤ 99 → p.hour ≤ 99 → p.minute ≤ 99 → p.second ≤ 99 → p.nanos < 10 ^ 9 →
        p.offset = none → Text.scan (Text.formatTime p r) = .ok (p.truncate r)) ∧
      ∀ (d : TimeDomain) (i : Int) (t : TimeIndex), d.time i = .ok t →
        d.timeOfText t.text .none = .ok t :=
  ⟨Text.scan_formatTime, fun _ _ _ => TimeIndex.timeOfText_text⟩

/-- A time written at milliseconds, `2008-06-25 12:30:05.250`, is read back whole. -/
theorem written_time_round_trip_at_milliseconds :
    Text.scan (Text.formatTime
        { year := 2008, month := 6, day := 25, hour := 12, minute := 30, second := 5,
          nanos := 250000000 } .msec) =
      .ok { year := 2008, month := 6, day := 25, hour := 12, minute := 30, second := 5,
            nanos := 250000000 } :=
  written_time_round_trip.1 _ .msec (by decide) (by decide) (by decide) (by decide) (by decide)
    (by decide) (by decide) (by decide) rfl

end Chronology
