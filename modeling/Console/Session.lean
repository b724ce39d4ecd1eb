import Console.Completeness
import Console.Indent
import Console.Interpreter
import Console.LineBuffer
import Console.Recall

/-!
# Sessions

A session takes lines, runs a unit as soon as its lines make one, and keeps a transcript of what was
typed and shown, a history of the units that were run, and the features switched on.
-/

namespace Console

/-- What the console shows in front of a line. -/
inductive Prompt
  /-- Before the first line of a unit. -/
  | primary
  /-- Before the lines after it. -/
  | continuation
  deriving DecidableEq, Repr

def Prompt.text : Prompt → String
  | .primary => ">>> "
  | .continuation => "... "

/-- A line of the transcript. Output that looks like a prompt is still output. -/
inductive Entry
  | input (prompt : Prompt) (code : String)
  | output (text : String)
  deriving DecidableEq, Repr

def Entry.text : Entry → String
  | .input prompt code => prompt.text ++ code
  | .output text => text

/-- What became of a line. -/
inductive Outcome
  /-- It ended a unit, which was run. -/
  | executed (e : Execution)
  /-- The unit goes on, the next line with `indent` spaces. -/
  | needsMore (indent : Nat)
  /-- It made a unit that no line can complete, which was dropped. -/
  | rejected (error : SyntaxError) (rendered : String)
  deriving DecidableEq, Repr

structure Session where
  machine : Machine
  /-- The lines of the unit being typed. -/
  buffer : LineBuffer
  history : History
  /-- What the last recall put at the end of the current line. -/
  cursor : Recall
  features : Features
  /-- The features that a replay starts with. -/
  initialFeatures : Features
  transcript : List Entry
  /-- How many columns a block is indented by. Settings allow no more than `Config.maxLength`. -/
  tabLength : Nat

namespace Session

def defaultTabLength : Nat := 4

def start (history : History) (tabLength : Nat) (features : Features) : Session :=
  ⟨.fresh, .empty, history, .idle, features, features, [], tabLength⟩

def prompt (s : Session) : Prompt := if s.buffer.isEmpty then .primary else .continuation

/-- Sets the line under the cursor. -/
def setCurrent (s : Session) (text : String) : Session :=
  { s with buffer := s.buffer.setCurrent text, cursor := .idle }

/-- Adds the lines of a text to the transcript. -/
def recordOutput (s : Session) (text : String) : Session :=
  { s with
    transcript := s.transcript ++
      (Text.lines text.toList).map fun line => .output (String.ofList line) }

/-- Whether a unit holds more than blank lines and comments. -/
def isWorthRecording (unit : String) : Bool :=
  (Text.lines unit.toList).any fun line =>
    match Text.trimStart line with
    | [] => false
    | c :: _ => c != '#'

/-- Runs the unit in the buffer; `recorded` units go into the history. -/
def runUnit (s : Session) (recorded : Bool) (unit : String) : Outcome × Session :=
  let (e, machine) := s.machine.execute unit s.features
  let history := if recorded && isWorthRecording unit then s.history.append unit else s.history
  let s := { s with
    machine, history, buffer := s.buffer.clear, features := s.features.union e.features }
  (.executed e, (s.recordOutput e.stdout).recordOutput e.stderr)

/-- Drops the unit in the buffer, which does not compile, and shows why. -/
def rejectUnit (s : Session) (unit : String) : Outcome × Session :=
  let error :=
    match Program.compile unit .single with
    | .error e => e
    | .ok _ => ⟨.invalidSyntax, 1, 0⟩
  let rendered := error.render unit
  (.rejected error rendered, { s with buffer := s.buffer.clear }.recordOutput rendered)

/-- Takes a line and acts on the unit that the buffer then holds. -/
def feed (s : Session) (recorded : Bool) (line : String) : Outcome × Session :=
  let s := { s with
    transcript := s.transcript ++ [.input s.prompt line]
    buffer := (s.buffer.push line).setCurrent ""
    cursor := .idle }
  let unit := s.buffer.text
  match Completeness.classify unit with
  | .needsMore => (.needsMore (Indent.predict line.toList s.tabLength), s)
  | .finished => s.runUnit recorded unit
  | .rejected => s.rejectUnit unit

/-- Takes a typed line. -/
def push (s : Session) (line : String) : Outcome × Session := s.feed true line

/-- Drops the unit being typed, from the transcript too. -/
def interrupt (s : Session) : Session :=
  { s with
    transcript := s.transcript.take (s.transcript.length - s.buffer.lines.length)
    buffer := s.buffer.clear }.setCurrent ""

/-- Runs a script. It leaves its names and features but no mark on transcript and history. -/
def runScript (s : Session) (source : String) : Execution × Session :=
  let (e, machine) := s.machine.runScript source s.features
  (e, { s with machine, features := s.features.union e.features })

/-- Puts the last word of an older entry at the end of the current line. -/
def recallLastWord (s : Session) : Session :=
  match s.cursor.next s.history s.buffer.current with
  | some (cursor, line) => { s with cursor, buffer := s.buffer.setCurrent line }
  | none => s

/-- The lines of the transcript as one text. -/
def transcriptText (s : Session) : String := "\n".intercalate (s.transcript.map Entry.text)

/-- Feeds lines one after the other. -/
def feedAll (s : Session) (recorded : Bool) : List String → List Outcome × Session
  | [] => ([], s)
  | line :: rest =>
    let (outcome, s) := s.feed recorded line
    let (outcomes, s) := s.feedAll recorded rest
    (outcome :: outcomes, s)

/-- Feeds up to `n` empty lines, as long as a unit is open. -/
def close (s : Session) (recorded : Bool) : (n : Nat) → List Outcome × Session
  | 0 => ([], s)
  | n + 1 =>
    if s.buffer.isEmpty then ([], s)
    else
      let (outcome, s) := s.feed recorded ""
      let (outcomes, s) := s.close recorded n
      (outcome :: outcomes, s)

/-- The empty lines that end any unit outside of brackets and quotes. -/
def closingLines : Nat := 2

/-- The keys and commands of the console. -/
def help : String :=
  "snek 0.4.0\n\n" ++
  "<Enter>         run the unit, or continue it with a new line\n" ++
  "<Alt-.>         insert the last word of an earlier entry\n" ++
  "<Ctrl-C>        discard the unit being entered\n" ++
  "<Ctrl-D>        exit\n" ++
  ":edit           edit the current unit in an external editor\n" ++
  ":edit-session   edit and replay the whole session\n" ++
  ":help           show this text"

end Session

end Console
