import Chronology.Pattern.Error
import Chronology.Word

/-!
# Cycles

A cycle is a repeating pattern of ON and OFF positions laid over the raw times `0, 1, 2, …`:
time `t` sits at position `t % length`. Dropping the OFF times and numbering the ON times in
order compresses the raw times into dense ones; expanding maps a dense time back.

## Main definitions

* `Cycle`: a pattern with at least one ON position.
* `Cycle.compress`: the dense number of an ON time.
* `Cycle.expand`: the raw time of a dense number.
-/

namespace Chronology

/-- A repeating pattern of ON and OFF positions with at least one ON position. -/
structure Cycle where
  pattern : List Bool
  hasOn : true ∈ pattern
deriving DecidableEq

namespace Cycle

/-- Builds a cycle; the pattern must not be empty, and must have an ON position. -/
def make (pattern : List Bool) : Except PatternError Cycle :=
  if pattern = [] then .error .emptyCycle
  else if h : true ∈ pattern then .ok ⟨pattern, h⟩
  else .error (.inactiveCycle pattern.length)

/-- Positions in one repetition. -/
def length (c : Cycle) : Nat := c.pattern.length

/-- ON positions in one repetition. -/
def onCount (c : Cycle) : Nat := c.pattern.count true

/-- A cycle has an effect only when some position is OFF. -/
def isEffective (c : Cycle) : Bool := c.onCount < c.length

/-- Whether the raw time `t` falls on an ON position. -/
def isOn (c : Cycle) (t : Nat) : Bool := c.pattern.getD (t % c.length) false

/-- The ON positions of one repetition, in order. -/
def onPositions (c : Cycle) : List Nat :=
  (List.range c.length).filter fun i => c.pattern.getD i false

/-- The dense number of an ON raw time: the ON times before it. -/
def compress (c : Cycle) (t : Int) : Except PatternError Int :=
  if t < 0 then .error (.negativeTime t)
  else if c.isOn t.toNat then
    .ok (t.toNat / c.length * c.onCount + (c.pattern.take (t.toNat % c.length)).count true)
  else .error (.offCycle t)

/-- The raw time of a dense number, which must fit a signed 64-bit word. -/
def expand (c : Cycle) (t : Int) : Except PatternError Int :=
  if t < 0 then .error (.negativeTime t)
  else
    Word.within (.overflow .cycleExpansion)
      (t.toNat / c.onCount * c.length + (c.onPositions.getD (t.toNat % c.onCount) 0))

theorem length_pos (c : Cycle) : 0 < c.length :=
  List.length_pos_of_mem c.hasOn

theorem onCount_pos (c : Cycle) : 0 < c.onCount :=
  List.count_pos_iff.mpr c.hasOn

end Cycle

end Chronology
