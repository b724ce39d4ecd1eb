import Console.CommandLine

/-!
# The program

Reads the files that the command line names and standard input, and writes what the run shows.
-/

namespace Console.CommandLine

/-- The text of a file, if it is there. -/
def readIfPresent (path : String) : IO (Option String) := do
  try return some (← IO.FS.readFile path) catch _ => return none

def loadConfig (path : Option String) : IO (Except ConfigFault Config) := do
  match path with
  | none => return .ok .default
  | some path => return (← readIfPresent path).elim (.ok .default) Config.load

def runConsole (options : Options) (config : Config) : IO UInt32 := do
  let script ← options.script.mapM fun path => IO.FS.readFile path
  let history ← match config.historyFile with
    | some path => readIfPresent path
    | none => pure none
  let readsOn := script.isNone || options.interactive
  let stdin ← if readsOn then (← IO.getStdin).readToEnd else pure ""
  let report := run
    ⟨stdin, script, options.interactive, history, config.historyLength, config.tabLength⟩
  IO.print report.stdout
  IO.eprint report.stderr
  match config.historyFile, report.history with
  | some path, some text => IO.FS.writeFile path text
  | _, _ => pure ()
  return report.exitCode

end Console.CommandLine

open Console in
def main (args : List String) : IO UInt32 := do
  match CommandLine.Options.read? ⟨none, false, none⟩ args with
  | none =>
    IO.eprint CommandLine.usage
    return 2
  | some options =>
    match ← CommandLine.loadConfig options.config with
    | .error fault =>
      IO.eprintln ("Error: failed to load config: " ++ fault.message?.getD "invalid settings")
      return 1
    | .ok config => CommandLine.runConsole options config
