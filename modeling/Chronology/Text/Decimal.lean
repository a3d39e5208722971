/-!
# Zero-padded decimals

Dates and times print their fields as decimals of a least width, with zeros in front. The sign of
a negative number counts towards the width and stands before the zeros, so `-5` at width four is
`-005`. A number with more digits than the width is printed whole.
-/

namespace Chronology.Text

/-- The decimal digits of `n`, with zeros in front up to `width` digits. -/
def padNat (width n : Nat) : String :=
  let ds := Nat.toDigits 10 n
  String.ofList (List.replicate (width - ds.length) '0' ++ ds)

/-- The decimal text of `n` of at least `width` characters, the sign included: zeros stand between
the sign and the digits. -/
def padInt (width : Nat) (n : Int) : String :=
  if n < 0 then "-" ++ padNat (width - 1) n.natAbs else padNat width n.toNat

theorem padNat_length (width n : Nat) :
    (padNat width n).length = max width (Nat.toDigits 10 n).length := by
  simp [padNat, String.length_ofList]
  omega

end Chronology.Text
