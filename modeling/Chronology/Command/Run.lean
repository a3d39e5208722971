import Chronology.Command.Args
import Chronology.Config.Settings
import Chronology.Range
import Chronology.Registry

/-!
# Running commands

A session holds the registry of domains (the built-in ones and those of the configuration file)
and the default adjustment. Each command looks its domains up by label, runs, and prints its
result; a failure is printed as `Error: ` followed by its causes from the outermost in, joined by
`: `, with status 1.

## Main definitions

* `Session.ofSettings`: the session of a configuration.
* `Outcome`: status, standard output and standard error of a run.
* `run`: the outcome of a command line, given the text of its configuration file.
-/

namespace Chronology.Command

open Config

/-- What a run prints and its exit status. -/
structure Outcome where
  status : Nat
  stdout : String
  stderr : String

/-- A failure with its causes, the outermost first. -/
abbrev Failure := List String

/-- The domains of a session and its default adjustment. -/
structure Session where
  registry : Registry
  defaultAdjust : Adjustment

/-- The definition of a configured sub-period pattern for a base unit. -/
def subPattern (base : Resolution) (s : SubEntry) : Except String SubPattern := do
  let unit ← (Resolution.parse s.unit).mapError (·.message)
  match s.ranks, s.weekdays with
  | some ranks, none => (SubPattern.fixed <$> FixedRanks.make base unit ranks).mapError (·.message)
  | none, some weekdays =>
    if unit ≠ .day then throw ("weekday rankings select days, got sub unit " ++ unit.name)
    let ranks ← weekdays.mapM fun w => do
      pure (DayRank.mk (← (Weekday.parse w.weekday).mapError (·.message)) w.rank)
    (SubPattern.dayRanking <$> DayRanking.make base ranks).mapError (·.message)
  | some _, some _ => throw "sub pattern must have exactly one of ranks or weekdays, got both"
  | none, none => throw "sub pattern must have exactly one of ranks or weekdays, got neither"

/-- The definition of a configured domain. -/
def definition (e : DomainEntry) : Except String Definition := do
  let base ← (Resolution.parse e.resolution).mapError (·.message)
  let d := ((Definition.ofBase base).withLabel e.label).withOrigin e.origin
  let d ← match e.cycle with
    | some pattern => (d.withCycle <$> Cycle.make pattern).mapError (·.message)
    | none => pure d
  match e.sub with
  | some s => d.withSub <$> subPattern base s
  | none => pure d

/-- The session of a configuration: its default adjustment, and the built-in domains with the
configured ones registered in order. -/
def Session.ofSettings (s : Settings) : Except Failure Session := do
  let adjust ← (Adjustment.parse s.defaultAdjust).mapError fun e =>
    ["invalid default_adjust", e.message]
  let registry ← s.domains.foldlM (fun r e => do
    let d ← (definition e).mapError fun m => ["invalid domain " ++ Text.quoted e.label, m]
    let (r, _) ← (r.getOrInsert d).mapError fun err =>
      ["cannot register domain " ++ Text.quoted e.label, err.message]
    pure r) Registry.withBuiltins
  pure ⟨registry, adjust⟩

/-- The place of a character offset in a text: line and column, from 0. -/
def position (text : List Char) (offset : Nat) : Nat × Nat :=
  let before := text.take offset
  let line := before.count '\n'
  let column := (before.reverse.takeWhile (· != '\n')).length
  (line, column)

/-- A refusal of a document, pointing at its place in the text. -/
def documentError (text : String) (span : Option Toml.Span) (message : String) : String :=
  match span with
  | none => message ++ "\n"
  | some sp =>
    let cs := text.toList
    let (line, column) := position cs (min sp.start cs.length)
    let content := ((text.splitOn "\n").getD line "").toList
    let lineText := toString (line + 1)
    let gutter := String.ofList (List.replicate (lineText.length + 1) ' ')
    let width := min (sp.stop - sp.start) (content.length - column)
    s!"TOML parse error at line {line + 1}, column {column + 1}\n" ++ gutter ++ "|\n" ++
      lineText ++ " | " ++ String.ofList content ++ "\n" ++ gutter ++ "|" ++
      String.ofList (List.replicate (column + 1) ' ') ++ "^" ++
      String.ofList (List.replicate (width - 1) '^') ++ "\n" ++ message ++ "\n"

/-- The session of a configuration file's text. -/
def Session.ofText (text : String) : Except Failure Session := do
  let doc ← (Toml.parse text).mapError fun e =>
    ["failed to parse TOML config", documentError text (some e.span) e.message]
  let entries ← match doc with
    | .table entries => pure entries
    | _ => throw ["failed to parse TOML config", "invalid document\n"]
  let settings ← (Settings.ofEntries entries).mapError fun e =>
    ["failed to parse TOML config", documentError text e.span e.message]
  Session.ofSettings settings

namespace Session

/-- The domain of a label. -/
def domain (s : Session) (label : String) : Except Failure TimeDomain :=
  match s.registry.byLabel? label with
  | some d => .ok d
  | none => .error ["unknown domain: " ++ Text.quoted label]

/-- The index of a written time in a labelled domain. -/
def pack (s : Session) (label text : String) (adjust : Adjustment) : Except Failure TimeIndex := do
  let d ← s.domain label
  (d.timeOfText text adjust).mapError fun e =>
    ["cannot pack " ++ Text.quoted text ++ " in domain " ++ Text.quoted label, e.message]

/-- The line printed for a time: the time, and its weekday when it has one. -/
def timeLine (t : TimeIndex) : String :=
  match t.dayOfWeek with
  | .ok w => t.text ++ " (" ++ w.name ++ ")"
  | .error _ => t.text

/-- The lines a command prints. -/
def perform (s : Session) : Action → Except Failure (List String)
  | .pack label text adjust => do
    let t ← s.pack label text (adjust.getD s.defaultAdjust)
    pure [toString t.index]
  | .unpack label index => do
    let d ← s.domain label
    let t ← (d.time index).mapError fun e =>
      [s!"cannot unpack index {index} in domain " ++ Text.quoted label, e.message]
    pure [timeLine t]
  | .range label first last adjust limit => do
    let (firstAdjust, lastAdjust) := match adjust.getD s.defaultAdjust with
      | .none => (Adjustment.none, Adjustment.none)
      | _ => (.up, .down)
    let d ← s.domain label
    let a ← (d.timeOfText first firstAdjust).mapError fun e =>
      ["invalid first bound " ++ Text.quoted first, e.message]
    let b ← (d.timeOfText last lastAdjust).mapError fun e =>
      ["invalid last bound " ++ Text.quoted last, e.message]
    let r ← (Range.ofTimes a b).mapError fun e => [e.message]
    pure (r.display :: (r.walk.take (limit.getD r.length)).map (·.text))
  | .compare leftLabel left rightLabel right => do
    let a ← (do (← s.domain leftLabel).timeOfText left .none |>.mapError fun e =>
      ["cannot pack " ++ Text.quoted left ++ " in domain " ++ Text.quoted leftLabel, e.message])
    let b ← (do (← s.domain rightLabel).timeOfText right .none |>.mapError fun e =>
      ["cannot pack " ++ Text.quoted right ++ " in domain " ++ Text.quoted rightLabel, e.message])
    let o ← (a.compare b).mapError fun e => [e.message]
    pure [match o with
      | .lt => "<"
      | .eq => "="
      | .gt => ">"]
  | .domains =>
    pure (s.registry.sortedLabels.map fun (label, d) =>
      Grammar.padRight 16 label ++ " " ++ summary d)
where
  /-- A domain's resolution and the times of its first and greatest indices. -/
  summary (d : TimeDomain) : String :=
    match d.unpack 0, d.unpack d.maxIndex with
    | .ok first, .ok last =>
      Grammar.padRight 6 d.resolution.name ++ " " ++ d.format first ++ " .. " ++ d.format last
    | _, _ => d.resolution.name

end Session

/-- The outcome of an invocation; `files` gives the text of a file by its path, when it can be
read. -/
def execute (inv : Invocation) (files : String → Option String) : Outcome :=
  let session : Except Failure Session :=
    match inv.config with
    | none => Session.ofSettings {}
    | some path =>
      match files path with
      | some text => Session.ofText text
      | none => .error ["failed to read config file: " ++ path,
          "No such file or directory (os error 2)"]
  match session >>= (·.perform inv.action) with
  | .ok lines => ⟨0, String.join (lines.map (· ++ "\n")), ""⟩
  | .error causes => ⟨1, "", "Error: " ++ ": ".intercalate causes ++ "\n"⟩

/-- The outcome of a command line; `files` gives the text of a file by its path, when it can be
read. -/
def run (args : List String) (files : String → Option String) : Outcome :=
  match Args.read args with
  | .run inv => execute inv files
  | .stop status stdout stderr => ⟨status, stdout, stderr⟩

end Chronology.Command
