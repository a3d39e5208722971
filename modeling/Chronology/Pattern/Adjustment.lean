import Chronology.Text.Blank
import Chronology.Text.Quoted

/-!
# Adjustments

When a time falls where a domain has no index, an adjustment says what to do: refuse it (`none`),
or move to the next admissible time (`up`) or the previous one (`down`).
-/

namespace Chronology

/-- What to do with a time that a domain leaves out. -/
inductive Adjustment where
  /-- Refuse the time. -/
  | none
  /-- Move to the next admissible time. -/
  | up
  /-- Move to the previous admissible time. -/
  | down
deriving DecidableEq, Repr

/-- A text that names no adjustment. -/
structure UnknownAdjustment where
  text : String
deriving DecidableEq, Repr

/-- The text of the refusal, which repeats the text as given. -/
def UnknownAdjustment.message (e : UnknownAdjustment) : String :=
  "unknown adjustment: " ++ Text.quoted e.text ++ " (expected none, up or down)"

namespace Adjustment

/-- The name of the adjustment. -/
def name : Adjustment → String
  | none => "none"
  | up => "up"
  | down => "down"

/-- The adjustment a lowercase name stands for. -/
def ofName? : String → Option Adjustment
  | "none" => some none
  | "up" => some up
  | "down" => some down
  | _ => Option.none

/-- Reads an adjustment, ignoring blanks at the ends and the case of ASCII letters. -/
def parse (s : String) : Except UnknownAdjustment Adjustment :=
  match ofName? (Text.lowerAscii (Text.trimBlank s)) with
  | some a => .ok a
  | Option.none => .error ⟨s⟩

theorem ofName?_name (a : Adjustment) : ofName? a.name = some a := by
  cases a <;> rfl

end Adjustment

end Chronology
