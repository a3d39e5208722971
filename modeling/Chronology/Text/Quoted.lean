import Chronology.Text.Hidden

/-!
# Quoted text

A name that an error message repeats is written between double quotes, so that blanks and control
characters in it stay visible. Inside the quotes, a quote and a backslash are preceded by a
backslash, the tab, line feed, carriage return and NUL are written `\t`, `\n`, `\r`, `\0`, and a
character that would not show on a terminal is written as `\u` followed by its code point in
lowercase hexadecimal between braces (see `isHidden`). Every other character, non-ASCII letters
included, stands for itself.
-/

namespace Chronology.Text

/-- The code point in lowercase hexadecimal, without leading zeros. -/
def hex (n : Nat) : String :=
  String.ofList (Nat.toDigits 16 n)

/-- How one character is written between quotes. -/
def escapeChar (c : Char) : String :=
  if c = '"' then "\\\""
  else if c = '\\' then "\\\\"
  else if c = '\t' then "\\t"
  else if c = '\n' then "\\n"
  else if c = '\r' then "\\r"
  else if c = '\x00' then "\\0"
  else if isHidden c then "\\u\x7b" ++ hex c.toNat ++ "\x7d"
  else c.toString

/-- The text between double quotes, each character written by `escapeChar`. -/
def quoted (s : String) : String :=
  "\"" ++ String.join (s.toList.map escapeChar) ++ "\""

end Chronology.Text
