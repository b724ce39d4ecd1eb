import Console.Config
import Console.Session

/-!
# The console without a terminal

One run of the program on given texts: first the script, if there is one, then the lines of standard
input, each pushed into one session. After a script alone nothing more is read.
-/

namespace Console.CommandLine

/-- What a run is given. -/
structure Input where
  stdin : String
  script : Option String
  /-- Whether to go on with standard input behind a script. -/
  interactive : Bool
  /-- The history file, if there is one. -/
  history : Option String
  historyLength : Nat
  tabLength : Nat

/-- What a run leaves. -/
structure Report where
  exitCode : UInt32
  stdout : String
  stderr : String
  /-- The history file to be written, if any. -/
  history : Option String
  deriving DecidableEq, Repr

/-- A session with what it has shown so far. -/
structure Shown where
  session : Session
  stdout : String
  stderr : String

namespace Shown

def add (s : Shown) (session : Session) (stdout stderr : String) : Shown :=
  ⟨session, s.stdout ++ stdout, s.stderr ++ stderr⟩

/-- Pushes a line and shows what it did. -/
def push (s : Shown) (line : String) : Shown :=
  let unit := "\n".intercalate (s.session.buffer.lines ++ [line])
  match s.session.push line with
  | (.executed e, session) => s.add session e.stdout e.stderr
  | (.needsMore _, session) => s.add session "" ""
  | (.rejected error _, session) => s.add session "" (error.render unit)

/-- Pushes up to `n` empty lines, as long as a unit is open. -/
def close (s : Shown) : (n : Nat) → Shown
  | 0 => s
  | n + 1 => if s.session.buffer.isEmpty then s else (s.push "").close n

def runScript (s : Shown) (source : String) : Execution × Shown :=
  let (e, session) := s.session.runScript source
  (e, s.add session e.stdout e.stderr)

/-- Pushes every line of a text and ends the unit that is left open. -/
def pushAll (s : Shown) (text : String) : Shown :=
  (((Text.lines text.toList).map String.ofList).foldl push s).close Session.closingLines

def report (s : Shown) (exitCode : UInt32) (history : Option String) : Report :=
  ⟨exitCode, s.stdout, s.stderr, history⟩

end Shown

def start (input : Input) : Shown :=
  ⟨.start (History.load (input.history.getD "") input.historyLength) input.tabLength .none,
    "", ""⟩

/-- Reads standard input to its end and saves the history. -/
def finish (input : Input) (s : Shown) : Report :=
  let s := s.pushAll input.stdin
  s.report 0 (some s.session.history.save)

def run (input : Input) : Report :=
  match input.script with
  | none => finish input (start input)
  | some source =>
    let (e, s) := (start input).runScript source
    if input.interactive then finish input s
    else s.report (if e.succeeded then 0 else 1) none

/-- What the command line asks for. -/
structure Options where
  script : Option String
  interactive : Bool
  config : Option String
  deriving DecidableEq, Repr

/-- Reads the words of the command line; the word that is no option, if any, is the script. -/
def Options.read? (o : Options) : List String → Option Options
  | [] => some o
  | word :: rest =>
    if word = "-i" ∨ word = "--interactive" then { o with interactive := true }.read? rest
    else if word = "-d" ∨ word = "--debug" then o.read? rest
    else if word = "-c" ∨ word = "--config" then
      match rest with
      | path :: rest => { o with config := some path }.read? rest
      | [] => none
    else if word.startsWith "-" ∨ o.script.isSome then none
    else { o with script := some word }.read? rest

def usage : String := "Usage: snek [-i] [-d] [-c CONFIG] [SCRIPT]\n"

end Console.CommandLine
