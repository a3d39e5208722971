import Chronology.Command.Run

/-!
# The `kalends` program

Reads the command line and the configuration file it names, runs the command, and prints what
it prints, with its exit status.
-/

open Chronology.Command

/-- Runs the program. -/
def main (args : List String) : IO UInt32 := do
  let configText ← match Args.read args with
    | .run ⟨some path, _⟩ => (try some <$> IO.FS.readFile path catch _ => pure none)
    | _ => pure none
  let configPath := match Args.read args with
    | .run ⟨some path, _⟩ => some path
    | _ => none
  let out := run args fun path => if some path = configPath then configText else none
  IO.print out.stdout
  IO.eprint out.stderr
  pure out.status.toUInt32
