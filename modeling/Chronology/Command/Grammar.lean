import Chronology.Pattern.Adjustment
import Chronology.Word

/-!
# The grammar of the command line

The `kalends` program takes the global options `-v`/`--verbose` (counted) and
`-c`/`--config <CONFIG>`, then one command with its own options and arguments. This module
holds that grammar as data, the checks a value must pass, and the help and usage texts built
from it.

Help lists a command's options by their place in their own list, the global ones counted in
theirs, ties going to the lower short letter, and `-h, --help` last. A usage line shows
`[OPTIONS]` and then what must be given; after a refused command line it shows instead the
required options and those given, in that order.
-/

namespace Chronology.Command

/-- What a value must be for the program to take it. -/
inductive ValueKind where
  | text
  | adjustment
  | unsigned
  | signed

/-- An option: long name, short letter, the name of its value (none for a flag), whether a
flag counts its uses, what its value must be, whether the command needs it, and its help
line. -/
structure OptionSpec where
  long : String
  short : Char
  value : Option String
  counts : Bool := false
  kind : ValueKind := .text
  required : Bool := false
  help : String

/-- How an option is written in a usage line: `--domain <DOMAIN>`, `--verbose...`, `--help`. -/
def OptionSpec.usage (o : OptionSpec) : String :=
  "--" ++ o.long ++ match o.value with
    | some v => " <" ++ v ++ ">"
    | none => if o.counts then "..." else ""

/-- How an option is shown in help: `-d, --domain <DOMAIN>`. -/
def OptionSpec.shown (o : OptionSpec) : String :=
  "-" ++ o.short.toString ++ ", " ++ o.usage

/-- A positional argument: its name, what it must be, and its help line. -/
structure ArgumentSpec where
  name : String
  kind : ValueKind := .text
  help : String

/-- How an argument is written: `<TIME>`. -/
def ArgumentSpec.usage (a : ArgumentSpec) : String := "<" ++ a.name ++ ">"

/-- The commands of the program. -/
inductive Verb where
  | pack
  | unpack
  | range
  | compare
  | domains

/-- A command: what it does, its name, summary, own options and arguments. -/
structure CommandSpec where
  verb : Verb
  name : String
  about : String
  options : List OptionSpec
  arguments : List ArgumentSpec

namespace Grammar

/-- The program's name and version. -/
def version : String := "kalends 0.1.0"

/-- The program's summary. -/
def about : String := "Pack and unpack calendar times in custom time domains"

def verbose : OptionSpec :=
  { long := "verbose", short := 'v', value := none, counts := true,
    help := "Increase verbosity (-v info, -vv debug, -vvv trace)" }
def config : OptionSpec :=
  { long := "config", short := 'c', value := some "CONFIG",
    help := "TOML file with additional domains" }

/-- The options every command takes. -/
def globals : List OptionSpec := [verbose, config]

/-- The flag that asks for help. -/
def helpFlag : OptionSpec := { long := "help", short := 'h', value := none, help := "Print help" }

/-- The flag that asks for the version. -/
def versionFlag : OptionSpec :=
  { long := "version", short := 'V', value := none, help := "Print version" }

def domain : OptionSpec :=
  { long := "domain", short := 'd', value := some "DOMAIN", required := true,
    help := "Domain label" }
def adjustPack : OptionSpec :=
  { long := "adjust", short := 'a', value := some "ADJUST", kind := .adjustment,
    help := "How to resolve a time the domain does not contain" }
def adjustRange : OptionSpec :=
  { long := "adjust", short := 'a', value := some "ADJUST", kind := .adjustment,
    help := "How to resolve bounds the domain does not contain" }
def limit : OptionSpec :=
  { long := "limit", short := 'l', value := some "LIMIT", kind := .unsigned,
    help := "Print at most this many times" }

def pack : CommandSpec :=
  ⟨.pack, "pack", "Pack a time into its index", [domain, adjustPack],
    [{ name := "TIME", help := "Time text, e.g. \"2008-06-25 12:00\"" }]⟩
def unpack : CommandSpec :=
  ⟨.unpack, "unpack", "Unpack an index into its time", [domain],
    [{ name := "INDEX", kind := .signed, help := "Index to unpack" }]⟩
def range : CommandSpec :=
  ⟨.range, "range", "List the times between two bounds", [domain, adjustRange, limit],
    [{ name := "FIRST", help := "First time of the range" },
     { name := "LAST", help := "Last time of the range" }]⟩
def compare : CommandSpec :=
  ⟨.compare, "compare", "Compare two times, possibly from different domains", [],
    [{ name := "LEFT_DOMAIN", help := "Domain label of the first time" },
     { name := "LEFT", help := "First time text" },
     { name := "RIGHT_DOMAIN", help := "Domain label of the second time" },
     { name := "RIGHT", help := "Second time text" }]⟩
def domains : CommandSpec := ⟨.domains, "domains", "List the known domains", [], []⟩

/-- The commands, in the order help lists them. -/
def commands : List CommandSpec := [pack, unpack, range, compare, domains]

/-- The summary of the `help` command. -/
def helpAbout : String := "Print this message or the help of the given subcommand(s)"

/-- Every name a command may be called by, `help` last. -/
def commandNames : List String := commands.map (·.name) ++ ["help"]

/-- The text spaces pad to `width` characters. -/
def padRight (width : Nat) (s : String) : String :=
  s ++ String.ofList (List.replicate (width - s.length) ' ')

/-- A two-column block of help lines, the second column aligned. -/
def columns (rows : List (String × String)) : String :=
  let width := rows.foldl (fun w (a, _) => max w a.length) 0
  String.join (rows.map fun (a, b) => "  " ++ padRight width a ++ "  " ++ b ++ "\n")

/-- The usage line of the program. -/
def usage : String := "Usage: kalends [OPTIONS] <COMMAND>"

/-- The help of the program. -/
def help : String :=
  about ++ "\n\n" ++ usage ++ "\n\nCommands:\n" ++
    columns ((commands.map fun c => (c.name, c.about)) ++ [("help", helpAbout)]) ++
    "\nOptions:\n" ++
    columns ((globals ++ [helpFlag, versionFlag]).map fun o => (o.shown, o.help))

/-- The help of the `help` command. -/
def helpCommandHelp : String :=
  helpAbout ++ "\n\nUsage: kalends help [COMMAND]...\n\nArguments:\n" ++
    columns [("[COMMAND]...", "Print help for the subcommand(s)")]

/-- The usage line of the `help` command. -/
def helpCommandUsage : String := "Usage: kalends help [COMMAND]..."

/-- The usage line of the program after a refusal, given the options used: the line of help
when none was, else the options used and the command. -/
def usageAfter (given : List OptionSpec) : String :=
  if given.isEmpty then usage
  else "Usage: kalends" ++ String.join (given.map (" " ++ ·.usage)) ++ " <COMMAND>"

end Grammar

namespace CommandSpec

open Grammar

/-- The options a command reads: its own, then the global ones. -/
def allOptions (c : CommandSpec) : List OptionSpec := c.options ++ globals

/-- The options a mistyped option is compared with, in the order they are declared. -/
def flags (c : CommandSpec) : List OptionSpec := c.allOptions ++ [helpFlag]

/-- The key that orders options of equal rank in help: the letter, lower case before upper. -/
def letterKey (o : OptionSpec) : String :=
  o.short.toLower.toString ++ if o.short.isLower then "0" else "1"

/-- The rows of a command's options in help. -/
def optionRows (c : CommandSpec) : List (String × String) :=
  let ranked := c.options.zipIdx ++ globals.zipIdx
  let sorted := ranked.mergeSort fun (a, i) (b, j) =>
    i < j || (i == j && decide (letterKey a ≤ letterKey b))
  (sorted.map (·.1) ++ [helpFlag]).map fun o => (o.shown, o.help)

/-- The usage line of a command, as help shows it. -/
def usage (c : CommandSpec) : String :=
  "Usage: kalends " ++ c.name ++ " [OPTIONS]" ++
    String.join ((c.options.filter (·.required)).map (" " ++ ·.usage)) ++
    String.join (c.arguments.map (" " ++ ·.usage))

/-- The usage line of a command after a refusal, given what was used: the line of help when
nothing was, else the required options and those used, each once, then the arguments. -/
def usageAfter (c : CommandSpec) (given : List OptionSpec) (anyGiven : Bool) : String :=
  if !anyGiven then c.usage
  else
    let shown := (c.options.filter (·.required) ++ given).foldl
      (fun acc o => if acc.any (·.long == o.long) then acc else acc ++ [o]) []
    "Usage: kalends " ++ c.name ++ String.join (shown.map (" " ++ ·.usage)) ++
      String.join (c.arguments.map (" " ++ ·.usage))

/-- The help of a command. -/
def help (c : CommandSpec) : String :=
  c.about ++ "\n\n" ++ c.usage ++ "\n\n" ++
    (if c.arguments.isEmpty then ""
     else "Arguments:\n" ++ columns (c.arguments.map fun a => (a.usage, a.help)) ++ "\n") ++
    "Options:\n" ++ columns c.optionRows

end CommandSpec

/-- The value of decimal text as a signed 64-bit integer, or why it is not one. -/
def parseInt64 (s : String) : Except String Int :=
  let cs := s.toList
  let (negative, digits) := match cs with
    | '-' :: rest => (true, rest)
    | '+' :: rest => (false, rest)
    | _ => (false, cs)
  if cs.isEmpty then .error "cannot parse integer from empty string"
  else if digits.isEmpty || !digits.all Char.isDigit then .error "invalid digit found in string"
  else
    let n : Int := digits.foldl (fun n c => n * 10 + (c.toNat - '0'.toNat)) 0
    let v := if negative then -n else n
    if Word.max < v then .error "number too large to fit in target type"
    else if v < Word.min then .error "number too small to fit in target type"
    else .ok v

/-- The value of decimal text as an unsigned 64-bit integer, or why it is not one. -/
def parseUnsigned (s : String) : Except String Nat :=
  let cs := s.toList
  let digits := match cs with
    | '+' :: rest => rest
    | _ => cs
  if cs.isEmpty then .error "cannot parse integer from empty string"
  else if digits.isEmpty || !digits.all Char.isDigit then .error "invalid digit found in string"
  else
    let n := digits.foldl (fun n c => n * 10 + (c.toNat - '0'.toNat)) 0
    if 18446744073709551615 < n then .error "number too large to fit in target type" else .ok n

/-- Why a value of the given kind is refused, if it is. -/
def ValueKind.refusal : ValueKind → String → Option String
  | .text, _ => none
  | .adjustment, v =>
    match Adjustment.parse v with
    | .ok _ => none
    | .error e => some e.message
  | .unsigned, v =>
    match parseUnsigned v with
    | .ok _ => none
    | .error m => some m
  | .signed, v =>
    match parseInt64 v with
    | .ok _ => none
    | .error m => some m

/-- Whether a value of this kind may be a negative number, so that its leading `-` does not
make it an option. -/
def ValueKind.takesNegative : ValueKind → Bool
  | .signed => true
  | _ => false

/-- Whether a word, less its leading `-`, reads as a number: digits, at most one point and at
most one exponent mark `e`, neither of them first, and the mark not last. -/
def isNumberText (cs : List Char) : Bool :=
  let rec go : List Char → Nat → Bool → Option Nat → Bool
    | [], _, _, e => e != some (cs.length - 1)
    | c :: rest, i, seenDot, e =>
      if c.isDigit then go rest (i + 1) seenDot e
      else if c == '.' && !seenDot && e.isNone && i != 0 then go rest (i + 1) true e
      else if c == 'e' && e.isNone && i != 0 then go rest (i + 1) seenDot (some i)
      else false
  !cs.isEmpty && go cs 0 false none

/-- Whether a word is a negative number: `-` and a number. -/
def isNegativeNumber (w : String) : Bool :=
  match w.toList with
  | '-' :: rest => isNumberText rest
  | _ => false

/-- Whether a word has the form of an option: `--name`, or `-` and letters. A lone `-` and `--`
are not options. -/
def looksLikeOption (w : String) : Bool :=
  match w.toList with
  | '-' :: '-' :: _ :: _ => true
  | '-' :: c :: _ => c != '-'
  | _ => false

end Chronology.Command
