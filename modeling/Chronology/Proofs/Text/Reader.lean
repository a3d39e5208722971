import Mathlib
import Chronology.Text.Scan
import Chronology.Text.Decimal

/-!
# Following the preferred reading

A `Reader` offers every way to read a prefix of its input, the preferred first, and `scan` keeps
the preferred reading that reads the whole text. To show that a text is read back as written it
is enough to follow the preferred reading step by step: when the first reading of `r` is
`(a, rest)` and the first reading of `f a` on `rest` is `b`, the first reading of `r >>= f` is `b`
(`Reader.head?_bind`), and a first reading that reads everything is the one `firstReading` keeps
(`firstReading_of_head?`). Every reader of a written time is then taken one step at a time:
a character that passes its test, a run of digits of a fixed length, a longest run of digits,
and an optional part, which is read whenever it can be.

The digits are those of `padNat`: all ASCII digits, exactly as many as the width when the number
has no more, and worth the number again (`digitValue_padNat`).

## Main results

* `Reader.head?_bind`: the first reading of a sequence follows the first readings of its steps.
* `Reader.head?_digitsBetween`: a run of digits is read whole when no digit follows it.
* `firstReading_of_head?`: a first reading that reads everything is the one kept.
* `digitValue_padNat`: padded digits are worth the number they pad.
* `trimBlankList_eq_self`: text that neither starts nor ends with a blank is kept whole.
-/

namespace Chronology.Text

namespace Reader

variable {α β : Type}

theorem bind_apply (r : Reader α) (f : α → Reader β) (s : List Char) :
    (r >>= f) s = (r s).flatMap fun x => f x.1 x.2 := rfl

/-- **The first reading of a sequence follows the first readings of its steps.** -/
theorem head?_bind {r : Reader α} {f : α → Reader β} {s : List Char} {a : α} {rest : List Char}
    {b : β × List Char} (h : (r s).head? = some (a, rest)) (hf : (f a rest).head? = some b) :
    ((r >>= f) s).head? = some b := by
  obtain ⟨tl, htl⟩ := List.head?_eq_some_iff.1 h
  rw [bind_apply, htl, List.flatMap_cons, List.head?_append, hf]
  rfl

theorem head?_pure (a : α) (s : List Char) : ((pure a : Reader α) s).head? = some (a, s) := rfl

/-- An optional part is read when it can be. -/
theorem head?_opt {r : Reader α} {s : List Char} {a : α} {rest : List Char}
    (h : (r s).head? = some (a, rest)) : (opt r s).head? = some (some a, rest) := by
  obtain ⟨tl, htl⟩ := List.head?_eq_some_iff.1 h
  simp [opt, htl]

theorem head?_opt_of_eq_nil {r : Reader α} {s : List Char} (h : r s = []) :
    (opt r s).head? = some (none, s) := by
  simp [opt, h]

theorem char_cons {test : Char → Bool} {c : Char} (h : test c = true) (rest : List Char) :
    char test (c :: rest) = [(c, rest)] := by
  simp [char, h]

theorem char_cons_of_false (test : Char → Bool) {c : Char} (h : test c = false)
    (rest : List Char) : char test (c :: rest) = [] := by
  simp [char, h]

theorem digits_append {n : Nat} {ds : List Char} (hl : ds.length = n) (hd : ∀ c ∈ ds, c.isDigit)
    (rest : List Char) : digits n (ds ++ rest) = [(ds, rest)] := by
  subst hl
  simp [digits, List.all_eq_true.2 hd]

/-- **A run of digits is read whole when no digit follows it** and its length is within the bounds.
The longest run is offered first, and it is at least `lo` long. -/
theorem head?_digitsBetween {lo : Nat} {hi : Option Nat} {ds rest : List Char}
    (hlo : lo ≤ ds.length) (hhi : ∀ h ∈ hi, ds.length ≤ h) (hd : ∀ c ∈ ds, c.isDigit)
    (hrest : ∀ c ∈ rest.head?, c.isDigit = false) :
    (digitsBetween lo hi (ds ++ rest)).head? = some (ds, rest) := by
  have hrun : ((ds ++ rest).takeWhile Char.isDigit).length = ds.length := by
    rw [List.takeWhile_append_of_pos (fun c hc => hd c hc)]
    cases rest with
    | nil => simp
    | cons c cs =>
      simp only [List.head?_cons, Option.mem_def, Option.some.injEq, forall_eq'] at hrest
      simp [hrest]
  have hlist : ∀ most, most = ds.length →
      (((List.range (most + 1)).reverse.filter fun k => decide (lo ≤ k)).map fun k =>
        ((ds ++ rest).take k, (ds ++ rest).drop k)).head? = some (ds, rest) := by
    rintro most rfl
    rw [List.range_succ, List.reverse_append, List.reverse_singleton, List.singleton_append,
      List.filter_cons_of_pos (by simpa using hlo), List.map_cons, List.head?_cons]
    simp
  cases hi with
  | none => exact hlist _ hrun
  | some h => exact hlist _ (by rw [hrun]; exact Nat.min_eq_left (hhi h rfl))

theorem finish_nil : finish [] = [((), [])] := rfl

end Reader

open Reader

/-- **A first reading that reads everything is the reading kept.** -/
theorem firstReading_of_head? {α : Type} {r : Reader α} {s : List Char} {a : α}
    (h : (r s).head? = some (a, [])) : firstReading r s = some a := by
  obtain ⟨tl, htl⟩ := List.head?_eq_some_iff.1 h
  simp [firstReading, htl]

/-! ### Padded decimals -/

theorem isDigit_of_mem_padNat {w n : Nat} {c : Char} (h : c ∈ (padNat w n).toList) :
    c.isDigit = true := by
  simp only [padNat, String.toList_ofList, List.mem_append, List.mem_replicate] at h
  rcases h with ⟨-, rfl⟩ | h
  · rfl
  · exact Nat.isDigit_of_mem_toDigits (by decide) (by decide) h

theorem length_padNat {w n : Nat} (hw : 0 < w) (h : n < 10 ^ w) :
    (padNat w n).toList.length = w := by
  have := (Nat.length_toDigits_le_iff (by decide) hw).2 h
  simp only [padNat, String.toList_ofList, List.length_append, List.length_replicate]
  omega

theorem exists_cons_padNat {w : Nat} (hw : 0 < w) (n : Nat) :
    ∃ c cs, (padNat w n).toList = c :: cs :=
  List.exists_cons_of_ne_nil (List.ne_nil_of_length_pos (by simp [padNat]; omega))

theorem padInt_of_nonneg {w : Nat} {n : Int} (h : 0 ≤ n) : padInt w n = padNat w n.toNat := by
  simp [padInt, Int.not_lt.2 h]

theorem digitValue_snoc (xs : List Char) (c : Char) :
    digitValue (xs ++ [c]) = digitValue xs * 10 + (c.toNat - '0'.toNat) := by
  simp [digitValue, List.foldl_append]

/-- Reading the digits of a number gives the number back: `toDigits` puts the last digit after the
digits of `n / 10`. -/
theorem digitValue_toDigits (n : Nat) : digitValue (Nat.toDigits 10 n) = n := by
  induction n using Nat.strongRecOn with
  | ind n ih =>
    rw [Nat.toDigits_eq_if (by decide)]
    split
    · rename_i hn
      simp [digitValue, Nat.toNat_digitChar_sub_48_of_lt_ten hn]
    · rename_i hn
      rw [digitValue_snoc, ih (n / 10) (by omega), show '0'.toNat = 48 from rfl,
        Nat.toNat_digitChar_sub_48_of_lt_ten (Nat.mod_lt n (by decide))]
      omega

theorem digitValue_zeros (k : Nat) (ds : List Char) :
    digitValue (List.replicate k '0' ++ ds) = digitValue ds := by
  have hzero : ∀ k,
      (List.replicate k '0').foldl (fun n c => n * 10 + (c.toNat - '0'.toNat)) 0 = 0 := by
    intro k
    induction k with
    | zero => rfl
    | succ k ih =>
      rw [List.replicate_succ', List.foldl_append, ih]
      rfl
  simp only [digitValue, List.foldl_append, hzero]

/-- **Padded digits are worth the number they pad.** -/
theorem digitValue_padNat (w n : Nat) : digitValue (padNat w n).toList = n := by
  simp only [padNat, String.toList_ofList, digitValue_zeros, digitValue_toDigits]

/-! ### Blanks at the ends -/

theorem isBlank_of_isDigit {c : Char} (h : c.isDigit = true) : isBlank c = false := by
  have := Char.isDigit_iff_toNat.1 h
  simp only [show '0'.toNat = 48 from rfl, show '9'.toNat = 57 from rfl] at this
  simp only [isBlank, Bool.or_eq_false_iff, Bool.and_eq_false_iff, decide_eq_false_iff_not,
    beq_eq_false_iff_ne, ne_eq]
  omega

/-- **Text that neither starts nor ends with a blank is kept whole.** The last character is the
first of the reversed text. -/
theorem trimBlankList_eq_self {cs : List Char} (hhead : ∀ c ∈ cs.head?, isBlank c = false)
    (hlast : ∀ c ∈ cs.getLast?, isBlank c = false) : trimBlankList cs = cs := by
  unfold trimBlankList
  cases cs with
  | nil => rfl
  | cons c cs =>
    rw [List.dropWhile_cons_of_neg (by simp [hhead c rfl])]
    cases h : (c :: cs).reverse with
    | nil => simp at h
    | cons d ds =>
      have hd : isBlank d = false := hlast d (by rw [← List.head?_reverse, h]; rfl)
      rw [List.dropWhile_cons_of_neg (by simp [hd]), ← h, List.reverse_reverse]

end Chronology.Text
