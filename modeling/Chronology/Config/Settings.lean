import Chronology.Config.Toml
import Chronology.Text.Quoted
import Chronology.Word

/-!
# Configuration files

The settings a configuration file gives: the default adjustment and the domains to register
beside the built-in ones. Each domain has a label, a base resolution, an optional origin, cycle
and sub-period pattern, all still as written; they are checked when the domain is built.

The file is a TOML document. Every table accepts only its own keys, and the first key, value or
missing key that does not fit is reported with its place in the text, in the words of a typed
reader: `unknown field`, `invalid type: … expected …`, `missing field`.
-/

namespace Chronology.Config

open Toml

/-- A ranked weekday as written. -/
structure WeekdayEntry where
  weekday : String
  rank : Int

/-- A sub-period pattern as written: a unit with fixed ranks or ranked weekdays. -/
structure SubEntry where
  unit : String
  ranks : Option (List Int) := none
  weekdays : Option (List WeekdayEntry) := none

/-- A domain as written. -/
structure DomainEntry where
  label : String
  resolution : String
  origin : Int := 0
  cycle : Option (List Bool) := none
  sub : Option SubEntry := none

/-- The settings of a configuration file. -/
structure Settings where
  defaultAdjust : String := "none"
  domains : List DomainEntry := []

/-- Why a document does not give settings, and where. -/
structure DecodeError where
  span : Option Span
  message : String

/-- What a value is, in the words of a typed reader. -/
def describe : Value → String
  | .string s => "string " ++ Text.quoted s
  | .integer n => s!"integer `{n}`"
  | .float text => "floating point `" ++ text ++ "`"
  | .boolean b => if b then "boolean `true`" else "boolean `false`"
  | .datetime _ => "datetime"
  | .array _ => "sequence"
  | .table _ => "map"

/-- A value of the wrong type. -/
def invalidType {α : Type} (v : Value) (span : Span) (expected : String) : Except DecodeError α :=
  .error ⟨some span, "invalid type: " ++ describe v ++ ", expected " ++ expected⟩

/-- The names of the keys a table accepts, as a typed reader lists them. -/
def oneOf (names : List String) : String :=
  let q (n : String) := "`" ++ n ++ "`"
  match names with
  | [a] => q a
  | [a, b] => q a ++ " or " ++ q b
  | _ => "one of " ++ ", ".intercalate (names.map q)

/-- Reads the keys of a table in the order they are written: the first key that is not among
the accepted ones, or whose value does not read, is refused. -/
def checkKeys (entries : List (String × Span × Value × Span))
    (fields : List (String × (Value × Span → Except DecodeError Unit))) : Except DecodeError Unit :=
  entries.forM fun (k, ks, v, vs) =>
    match fields.lookup k with
    | some read => read (v, vs)
    | none => .error ⟨some ks, "unknown field `" ++ k ++ "`, expected " ++ oneOf (fields.map (·.1))⟩

/-- A reader whose result is dropped, for checking. -/
def only {α : Type} (f : Value × Span → Except DecodeError α) (e : Value × Span) :
    Except DecodeError Unit := do
  let _ ← f e

/-- The entry of a key, if set. -/
def lookupEntry (entries : List (String × Span × Value × Span)) (k : String) : Option (Value × Span) :=
  (entries.find? (·.1 == k)).map fun (_, _, v, s) => (v, s)

/-- A string value. -/
def asString : Value × Span → Except DecodeError String
  | (.string s, _) => .ok s
  | (v, span) => invalidType v span "a string"

/-- An integer value within `[lo, hi]`, named `name` by a typed reader. -/
def asInteger (name : String) (lo hi : Int) : Value × Span → Except DecodeError Int
  | (.integer n, span) =>
    if lo ≤ n ∧ n ≤ hi then .ok n
    else .error ⟨some span, s!"invalid value: integer `{n}`, expected " ++ name⟩
  | (v, span) => invalidType v span name

/-- A list of values, each read by `f`. -/
def asList {α : Type} (f : Value × Span → Except DecodeError α) :
    Value × Span → Except DecodeError (List α)
  | (.array items, _) => items.mapM f
  | (v, span) => invalidType v span "a sequence"

/-- A boolean value. -/
def asBool : Value × Span → Except DecodeError Bool
  | (.boolean b, _) => .ok b
  | (v, span) => invalidType v span "a boolean"

/-- The entries of a table, named `name` by a typed reader. -/
def asTable (name : String) : Value × Span → Except DecodeError (List (String × Span × Value × Span))
  | (.table entries, _) => .ok entries
  | (v, span) => invalidType v span name

/-- A required key, read by `f`; the span points at the table when it is missing. -/
def required {α : Type} (entries : List (String × Span × Value × Span)) (span : Span) (k : String)
    (f : Value × Span → Except DecodeError α) : Except DecodeError α :=
  match lookupEntry entries k with
  | some e => f e
  | none => .error ⟨some span, "missing field `" ++ k ++ "`"⟩

/-- An optional key, read by `f`. -/
def optional {α : Type} (entries : List (String × Span × Value × Span)) (k : String)
    (f : Value × Span → Except DecodeError α) : Except DecodeError (Option α) :=
  (lookupEntry entries k).mapM f

/-- A ranked weekday. -/
def weekdayEntry (e : Value × Span) : Except DecodeError WeekdayEntry := do
  let entries ← asTable "struct WeekdayRankToml" e
  checkKeys entries [("weekday", only asString),
    ("rank", only (asInteger "i32" Word.min32 Word.max32))]
  pure { weekday := ← required entries e.2 "weekday" asString,
         rank := ← required entries e.2 "rank" (asInteger "i32" Word.min32 Word.max32) }

/-- A sub-period pattern. -/
def subEntry (e : Value × Span) : Except DecodeError SubEntry := do
  let entries ← asTable "struct SubToml" e
  checkKeys entries [("unit", only asString),
    ("ranks", only (asList (asInteger "i64" Word.min Word.max))),
    ("weekdays", only (asList weekdayEntry))]
  pure { unit := ← required entries e.2 "unit" asString,
         ranks := ← optional entries "ranks" (asList (asInteger "i64" Word.min Word.max)),
         weekdays := ← optional entries "weekdays" (asList weekdayEntry) }

/-- A domain. -/
def domainEntry (e : Value × Span) : Except DecodeError DomainEntry := do
  let entries ← asTable "struct DomainToml" e
  checkKeys entries [("label", only asString), ("resolution", only asString),
    ("origin", only (asInteger "i64" Word.min Word.max)), ("cycle", only (asList asBool)),
    ("sub", only subEntry)]
  pure { label := ← required entries e.2 "label" asString,
         resolution := ← required entries e.2 "resolution" asString,
         origin := (← optional entries "origin" (asInteger "i64" Word.min Word.max)).getD 0,
         cycle := ← optional entries "cycle" (asList asBool),
         sub := ← optional entries "sub" subEntry }

/-- The settings of a document's top-level table. -/
def Settings.ofEntries (entries : List (String × Span × Value × Span)) :
    Except DecodeError Settings := do
  checkKeys entries [("default_adjust", only asString), ("domain", only (asList domainEntry))]
  pure { defaultAdjust := (← optional entries "default_adjust" asString).getD "none",
         domains := (← optional entries "domain" (asList domainEntry)).getD [] }

end Chronology.Config
