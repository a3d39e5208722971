/-!
# Similar names

A mistyped command or option is answered with the names that resemble it. Resemblance is the
Jaro similarity of the two spellings: characters match when equal and not farther apart than
half the longer spelling less one, each character matched at most once and the earliest free
one first; half the matched characters that stand in a different order are transpositions; and
the similarity is the mean of the matched share of each spelling and the share of matches in
order. Names scoring above 0.7 are offered, the closest last, those equally close in the order
they were given.

Scores are kept as exact fractions, so that the threshold and the order are decided without
rounding.
-/

namespace Chronology.Command.Suggest

/-- A fraction `num / den` with `den` positive. -/
structure Score where
  num : Nat
  den : Nat

/-- Whether one score is at most another. -/
def Score.le (a b : Score) : Bool := decide (a.num * b.den ≤ b.num * a.den)

/-- The first position in `[lo, hi)` of `b` that holds `x` and is not yet matched. -/
def firstFree (b : List Char) (taken : List Bool) (x : Char) (lo hi : Nat) : Option Nat :=
  (List.range' lo (hi - lo)).find? fun j => b[j]? == some x && !taken.getD j true

/-- The characters of `a` that match in `b`, in order, and which positions of `b` they
match. -/
def matching (a b : List Char) : List Char × List Bool :=
  let reach := max a.length b.length / 2 - 1
  a.zipIdx.foldl (fun (acc : List Char × List Bool) (x, i) =>
    match firstFree b acc.2 x (i - reach) (min b.length (i + reach + 1)) with
    | some j => (acc.1 ++ [x], acc.2.set j true)
    | none => acc) ([], List.replicate b.length false)

/-- The Jaro similarity of two spellings. -/
def jaro (a b : List Char) : Score :=
  if a.isEmpty && b.isEmpty then ⟨1, 1⟩
  else if a.isEmpty || b.isEmpty then ⟨0, 1⟩
  else
    let (fromA, taken) := matching a b
    let fromB := (b.zip taken).filterMap fun (c, t) => if t then some c else none
    let m := fromA.length
    let t := ((fromA.zip fromB).filter fun (x, y) => x != y).length / 2
    if m = 0 then ⟨0, 1⟩
    else
      ⟨m * m * b.length + m * m * a.length + (m - t) * a.length * b.length,
        3 * a.length * b.length * m⟩

/-- The names that resemble `word`, the closest last. -/
def similar (word : String) (names : List String) : List String :=
  let scored := names.filterMap fun n =>
    let s := jaro word.toList n.toList
    if (Score.le s ⟨7, 10⟩) then none else some (s, n)
  (scored.mergeSort fun x y => x.1.le y.1).map (·.2)

end Chronology.Command.Suggest
