import Chronology.Command.Grammar
import Chronology.Command.Suggest

/-!
# Reading a command line

Words are read from left to right. An option's value is the rest of its word (`--name=value`,
`-nvalue`, `-n=value`) or the next word; a word that has the form of an option is never taken
as a value, except a negative number where the next argument may be one. `--` ends the options.

A value is held until the next option, the next argument or the end of the line, and only then
checked: a second use of the same option, a value its option refuses and an option without
its value are refused there. An unknown option is refused at once, the value held passed over.
`--help` and `--version` stop reading when they are reached. Missing options and arguments are
refused last.

A refused line is answered on standard error with status 2: the reason, tips (a similar name,
or how to pass the word as a value), the usage line, and where to find more.

## Main definitions

* `Action`: what the command line asks for.
* `Args.read`: the invocation of a command line, or the text to stop with.
-/

namespace Chronology.Command

/-- What the command line asks for. -/
inductive Action where
  | pack (domain time : String) (adjust : Option Adjustment)
  | unpack (domain : String) (index : Int)
  | range (domain first last : String) (adjust : Option Adjustment) (limit : Option Nat)
  | compare (leftDomain left rightDomain right : String)
  | domains

/-- A command line to run: the configuration file, if any, and the action. -/
structure Invocation where
  config : Option String
  action : Action

/-- The result of reading a command line: an invocation to run, or a text to stop with. -/
inductive Reading where
  | run (inv : Invocation)
  | stop (status : Nat) (stdout stderr : String)

/-- A word in single quotes. -/
def quote (s : String) : String := "\x27" ++ s ++ "\x27"

/-- Why a command line is refused: the reason, the similar names found (with what kind of name
they are), other tips, and the usage line shown. -/
structure Refusal where
  message : String
  similar : Option (String × List String) := none
  tips : List String := []
  usage : Option String := none

namespace Refusal

/-- The text of a refusal. -/
def text (r : Refusal) : String :=
  let similarText := match r.similar with
    | some (kind, [n]) => "\n\n  tip: a similar " ++ kind ++ " exists: " ++ quote n
    | some (kind, ns) =>
      "\n\n  tip: some similar " ++ kind ++ "s exist: " ++ ", ".intercalate (ns.map quote)
    | none => ""
  let tipText :=
    if r.tips.isEmpty then ""
    else (if r.similar.isSome then "" else "\n") ++ String.join (r.tips.map ("\n  tip: " ++ ·))
  "error: " ++ r.message ++ similarText ++ tipText ++
    (match r.usage with
     | some u => "\n\n" ++ u
     | none => "") ++
    "\n\nFor more information, try \x27--help\x27.\n"

/-- The answer to a refused line. -/
def reading (r : Refusal) : Reading := .stop 2 "" r.text

end Refusal

namespace Args

open Grammar

/-- A value waiting to be checked: an option's (none while its word is still to come), or an
argument. -/
inductive Held where
  | option (o : OptionSpec) (value : Option String)
  | argument (a : ArgumentSpec) (value : String)

/-- What the words read so far have given: option values by long name, arguments, the options
used in order, whether anything was given, and how many arguments were read (the one held
included). -/
structure Given where
  values : List (String × String) := []
  arguments : List String := []
  used : List OptionSpec := []
  anyGiven : Bool := false
  seen : Nat := 0

/-- The refusal of an option whose value is missing. -/
def emptyValue (o : OptionSpec) : Refusal :=
  { message := "a value is required for " ++ quote o.usage ++ " but none was supplied" }

/-- The refusal of a value. -/
def invalidValue (value shown reason : String) : Refusal :=
  { message := "invalid value " ++ quote value ++ " for " ++ quote shown ++ ": " ++ reason }

/-- The refusal of a value given to a flag. -/
def unexpectedValue (value : String) (o : OptionSpec) (usageLine : String) : Refusal :=
  { message := "unexpected value " ++ quote value ++ " for " ++ quote o.usage ++
      " found; no more were expected", usage := some usageLine }

/-- Checks a held value and records it; `usageLine` is shown when an option is used twice. -/
def settle (usageLine : String) (g : Given) : Held → Except Reading Given
  | .option o none => .error (emptyValue o).reading
  | .option o (some v) =>
    if g.values.any (·.1 == o.long) then
      .error (Refusal.reading
        { message := "the argument " ++ quote o.usage ++ " cannot be used multiple times"
          usage := some usageLine })
    else match o.kind.refusal v with
      | some reason => .error (invalidValue v o.usage reason).reading
      | none =>
        .ok { g with
              values := g.values ++ [(o.long, v)]
              used := g.used ++ [o]
              anyGiven := true }
  | .argument a v =>
    match a.kind.refusal v with
    | some reason => .error (invalidValue v a.usage reason).reading
    | none => .ok { g with arguments := g.arguments ++ [v], anyGiven := true }

/-- Checks and records the value held, if any. -/
def settleHeld (usageLine : String) (g : Given) : Option Held → Except Reading Given
  | none => .ok g
  | some h => settle usageLine g h

/-- Records the value held if it passes, and passes it over otherwise. -/
def settleQuietly (usageLine : String) (g : Given) (held : Option Held) : Given :=
  match settleHeld usageLine g held with
  | .ok g => g
  | .error _ => g

/-- Records a flag's use. -/
def Given.useFlag (g : Given) (o : OptionSpec) : Given :=
  { g with used := g.used ++ [o], anyGiven := true }

/-- Splits the word of a long option, less its `--`, at its first `=`. -/
def splitLong (body : List Char) : String × Option String :=
  (String.ofList (body.takeWhile (· != '=')),
    if body.contains '=' then some (String.ofList ((body.dropWhile (· != '=')).drop 1)) else none)

/-- The tip for passing an option-like word as a value, where the command takes arguments. -/
def valueTip (c : CommandSpec) (word : String) : List String :=
  if c.arguments.isEmpty then []
  else ["to pass " ++ quote word ++ " as a value, use " ++ quote ("-- " ++ word)]

/-- Reads an option of a command, given as `--name` or `--name=value`. -/
def readLong (c : CommandSpec) (g : Given) (held : Option Held) (body : List Char) :
    Except Reading (Given × Option Held) :=
  let (name, inline) := splitLong body
  match c.flags.find? (·.long == name) with
  | none =>
    let g := settleQuietly c.usage g held
    match (Suggest.similar name (c.flags.map (·.long))).getLast? with
    | some s =>
      .error (Refusal.reading
        { message := "unexpected argument " ++ quote ("--" ++ name) ++ " found"
          similar := some ("argument", ["--" ++ s])
          usage := some (c.usageAfter (g.used ++ c.flags.filter (·.long == s)) true) })
    | none =>
      .error (Refusal.reading
        { message := "unexpected argument " ++ quote ("--" ++ name) ++ " found"
          tips := valueTip c ("--" ++ name)
          usage := some (c.usageAfter g.used g.anyGiven) })
  | some o => do
    let g ← settleHeld c.usage g held
    match o.value, inline with
    | none, some v => throw (unexpectedValue v o (c.usageAfter (g.used ++ [o]) true)).reading
    | none, none =>
      if o.long == "help" then throw (.stop 0 c.help "") else pure (g.useFlag o, none)
    | some _, some v => pure (← settle c.usage g (.option o (some v)), none)
    | some _, none => pure (g, some (.option o none))

/-- Reads the letters of a word of short options: flags, then perhaps one option whose value
is the rest of the word or the next word. -/
def readShort (c : CommandSpec) : List Char → Given → Option Held →
    Except Reading (Given × Option Held)
  | [], g, held => .ok (g, held)
  | x :: more, g, held =>
    match c.flags.find? (·.short == x) with
    | none =>
      .error (Refusal.reading
        { message := "unexpected argument " ++ quote ("-" ++ x.toString) ++ " found"
          tips := valueTip c ("-" ++ x.toString)
          usage := some c.usage })
    | some o => do
      let g ← settleHeld c.usage g held
      match o.value with
      | none =>
        if o.long == "help" then throw (.stop 0 c.help "") else readShort c more (g.useFlag o) none
      | some _ =>
        if more.isEmpty then pure (g, some (.option o none))
        else
          let v := String.ofList (match more with
            | '=' :: rest => rest
            | _ => more)
          pure (← settle c.usage g (.option o (some v)), none)

/-- Reads one word of a command. -/
def readWord (c : CommandSpec) (g : Given) (held : Option Held) (trailing : Bool) (w : String) :
    Except Reading (Given × Option Held × Bool) :=
  let slotTakesNegative := (c.arguments[g.seen]?).any (·.kind.takesNegative)
  if !trailing && w == "--" then
    match held with
    | some (.option o none) => .error (emptyValue o).reading
    | _ => .ok (g, held, true)
  else if !trailing && looksLikeOption w && !(slotTakesNegative && isNegativeNumber w) then
    let r := match w.toList with
      | '-' :: '-' :: body => readLong c g held body
      | _ :: body => readShort c body g held
      | [] => .ok (g, held)
    r.map fun (g, h) => (g, h, false)
  else
    match held with
    | some (.option o none) => .ok (g, some (.option o (some w)), trailing)
    | _ =>
      match c.arguments[g.seen]? with
      | none =>
        .error (Refusal.reading
          { message := "unexpected argument " ++ quote w ++ " found"
            usage := some c.usage })
      | some a => do
        let g ← settleHeld c.usage g held
        pure ({ g with seen := g.seen + 1 }, some (.argument a w), trailing)

/-- Reads the words of a command. -/
def readWords (c : CommandSpec) : List String → Given → Option Held → Bool → Except Reading Given
  | [], g, held, _ => settleHeld c.usage g held
  | w :: rest, g, held, trailing => do
    let (g, held, trailing) ← readWord c g held trailing w
    readWords c rest g held trailing

/-- Refuses a command whose required options or arguments are missing. -/
def requireAll (c : CommandSpec) (g : Given) : Except Reading Given :=
  let missingOptions := c.options.filter fun o => o.required && !g.values.any (·.1 == o.long)
  let missing := missingOptions.map (·.usage) ++ (c.arguments.drop g.arguments.length).map (·.usage)
  if missing.isEmpty then .ok g
  else .error (Refusal.reading
    { message := "the following required arguments were not provided:" ++
        String.join (missing.map ("\n  " ++ ·))
      usage := some (c.usageAfter (g.used ++ missingOptions) true) })

/-- The action of a command, its words read and checked. -/
def action (c : CommandSpec) (g : Given) : Action :=
  let value (name : String) : Option String := (g.values.find? (·.1 == name)).map (·.2)
  let arg (i : Nat) : String := g.arguments.getD i ""
  let domainLabel := (value "domain").getD ""
  let adjust := (value "adjust").bind fun v => (Adjustment.parse v).toOption
  match c.verb with
  | .pack => .pack domainLabel (arg 0) adjust
  | .unpack => .unpack domainLabel ((parseInt64 (arg 0)).toOption.getD 0)
  | .range =>
    .range domainLabel (arg 0) (arg 1) adjust ((value "limit").bind fun v => (parseUnsigned v).toOption)
  | .compare => .compare (arg 0) (arg 1) (arg 2) (arg 3)
  | .domains => .domains

/-- Reads an option of the program, given as `--name` or `--name=value`; `rest` are the words
after it, where a command named there may know the option. -/
def readProgramLong (g : Given) (held : Option Held) (body : List Char) (rest : List String) :
    Except Reading (Given × Option Held) :=
  let (name, inline) := splitLong body
  let flags := globals ++ [helpFlag, versionFlag]
  match flags.find? (·.long == name) with
  | none =>
    let g := settleQuietly usage g held
    let refused := "unexpected argument " ++ quote ("--" ++ name) ++ " found"
    match (Suggest.similar name (flags.map (·.long))).getLast? with
    | some s =>
      .error (Refusal.reading
        { message := refused
          similar := some ("argument", ["--" ++ s])
          usage := some (usageAfter (g.used ++ flags.filter (·.long == s))) })
    | none =>
      let known := commands.filterMap fun c => do
        let s ← (Suggest.similar name (c.flags.map (·.long))).getLast?
        let place ← rest.findIdx? (· == c.name)
        pure (place, c.name, s)
      let nearest := known.foldl (fun best k => match best with
        | some b => if k.1 < b.1 then some k else some b
        | none => some k) none
      .error (Refusal.reading
        { message := refused
          tips := match nearest with
            | some (_, cmd, s) => [quote (cmd ++ " --" ++ s) ++ " exists"]
            | none => []
          usage := some (usageAfter g.used) })
  | some o => do
    let g ← settleHeld usage g held
    match o.value, inline with
    | none, some v => throw (unexpectedValue v o (usageAfter (g.used ++ [o]))).reading
    | none, none =>
      if o.long == "help" then throw (.stop 0 help "")
      else if o.long == "version" then throw (.stop 0 (version ++ "\n") "")
      else pure (g.useFlag o, none)
    | some _, some v => pure (← settle usage g (.option o (some v)), none)
    | some _, none => pure (g, some (.option o none))

/-- Reads the letters of a word of the program's short options. -/
def readProgramShort : List Char → Given → Option Held → Except Reading (Given × Option Held)
  | [], g, held => .ok (g, held)
  | x :: more, g, held =>
    match (globals ++ [helpFlag, versionFlag]).find? (·.short == x) with
    | none =>
      .error (Refusal.reading
        { message := "unexpected argument " ++ quote ("-" ++ x.toString) ++ " found"
          usage := some usage })
    | some o => do
      let g ← settleHeld usage g held
      match o.value with
      | none =>
        if o.long == "help" then throw (.stop 0 help "")
        else if o.long == "version" then throw (.stop 0 (version ++ "\n") "")
        else readProgramShort more (g.useFlag o) none
      | some _ =>
        if more.isEmpty then pure (g, some (.option o none))
        else
          let v := String.ofList (match more with
            | '=' :: rest => rest
            | _ => more)
          pure (← settle usage g (.option o (some v)), none)

/-- The refusal of a word that names no command. -/
def unknownCommand (name usageLine : String) : Reading :=
  Refusal.reading
    { message := "unrecognized subcommand " ++ quote name
      usage := some usageLine }

/-- Answers `help` followed by the names of a command. -/
def readHelp : List String → Reading
  | [] => .stop 0 help ""
  | name :: rest =>
    if name == "help" then
      match rest with
      | [] => .stop 0 helpCommandHelp ""
      | other :: _ => unknownCommand other helpCommandUsage
    else
      match commands.find? (·.name == name) with
      | none => unknownCommand name usage
      | some c =>
        match rest with
        | [] => .stop 0 c.help ""
        | other :: _ => unknownCommand other c.usage

/-- Reads a command and its words; the configuration file named there wins over one named
before the command. -/
def readCommand (c : CommandSpec) (words : List String) (before : Given) : Reading :=
  match readWords c words {} none false >>= requireAll c with
  | .error r => r
  | .ok g =>
    let configOf (g : Given) : Option String := (g.values.find? (·.1 == "config")).map (·.2)
    .run ⟨configOf g <|> configOf before, action c g⟩

/-- Reads the program's words before its command. -/
def readProgram : List String → Given → Option Held → Bool → Reading
  | [], g, held, _ =>
    match settleHeld usage g held with
    | .error r => r
    | .ok g =>
      if !g.anyGiven then .stop 2 "" help
      else Refusal.reading
        { message := "\x27kalends\x27 requires a subcommand but one was not provided" ++
            "\n  [subcommands: " ++ ", ".intercalate commandNames ++ "]"
          usage := some usage }
  | w :: rest, g, held, trailing =>
    if !trailing && w == "help" then readHelp rest
    else match (if trailing then none else commands.find? (·.name == w)) with
    | some c =>
      match settleHeld usage g held with
      | .error r => r
      | .ok g => readCommand c rest g
    | none =>
      if trailing then
        Refusal.reading
          { message := "unexpected argument " ++ quote w ++ " found"
            tips :=
              if commandNames.contains w then
                ["subcommand " ++ quote w ++ " exists; to use it, remove the " ++ quote "--" ++
                  " before it"]
              else []
            usage := some usage }
      else if w == "--" then
        match held with
        | some (.option o none) => (emptyValue o).reading
        | _ => readProgram rest g held true
      else if looksLikeOption w then
        let r := match w.toList with
          | '-' :: '-' :: body => readProgramLong g held body rest
          | _ :: body => readProgramShort body g held
          | [] => .ok (g, held)
        match r with
        | .error r => r
        | .ok (g, held) => readProgram rest g held false
      else
        match held with
        | some (.option o none) => readProgram rest g (some (.option o (some w))) false
        | _ =>
          match Suggest.similar w commandNames with
          | [] => unknownCommand w usage
          | names =>
            Refusal.reading
              { message := "unrecognized subcommand " ++ quote w
                similar := some ("subcommand", names)
                usage := some usage }

/-- Reads a command line, the program's name left out. -/
def read (args : List String) : Reading := readProgram args {} none false

end Args

end Chronology.Command
