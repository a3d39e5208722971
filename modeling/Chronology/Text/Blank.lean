/-!
# Blanks and letter case

Names and times are read after removing blanks at both ends, and names are matched without regard
to the case of ASCII letters. A blank is a character with the Unicode `White_Space` property, so
the ideographic space and the no-break space count, while a zero-width space does not.
-/

namespace Chronology.Text

/-- The blank characters: exactly the characters with the Unicode `White_Space` property. -/
def isBlank (c : Char) : Bool :=
  let n := c.toNat
  (0x09 ≤ n && n ≤ 0x0d) || n == 0x20 || n == 0x85 || n == 0xa0 || n == 0x1680 ||
    (0x2000 ≤ n && n ≤ 0x200a) || n == 0x2028 || n == 0x2029 || n == 0x202f ||
    n == 0x205f || n == 0x3000

/-- The characters without the blanks at either end. -/
def trimBlankList (cs : List Char) : List Char :=
  ((cs.dropWhile isBlank).reverse.dropWhile isBlank).reverse

/-- The text without the blanks at either end. -/
def trimBlank (s : String) : String :=
  String.ofList (trimBlankList s.toList)

/-- The text with the letters `A` to `Z` turned into `a` to `z`; every other character, accented
letters included, is kept. -/
def lowerAscii (s : String) : String :=
  String.ofList (s.toList.map Char.toLower)

/-- Every ASCII blank of core's class is a blank here. -/
theorem isBlank_of_isWhitespace (c : Char) (h : c.isWhitespace = true) : isBlank c = true := by
  simp only [Char.isWhitespace, Bool.or_eq_true, decide_eq_true_eq] at h
  rcases h with ((h | h) | h) | h <;> subst h <;> decide

end Chronology.Text
