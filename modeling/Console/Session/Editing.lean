import Console.Session

/-!
# Editing

An editor is shown a text and answers with another. It may be given the unit being typed, whose lines
are then fed again, or the whole session, which is then replayed from the start.
-/

namespace Console

/-- Why an editor gave no text. -/
inductive EditorFault
  | notConfigured
  deriving DecidableEq, Repr

def EditorFault.message : EditorFault → String
  | .notConfigured => "no editor configured"

abbrev Editor := String → Except EditorFault String

namespace Session

/-- The pieces of a text between line feeds. -/
def editedLines (text : String) : List String :=
  (Text.pieces '\n' text.toList).map String.ofList

def isBlankLine (line : String) : Bool := Text.allBlank line.toList

/-- Feeds the lines of an edited block in place of the unit being typed. -/
def replaceBlock (s : Session) (text : String) : List Outcome × Session :=
  let lines := ((editedLines text).reverse.dropWhile isBlankLine).reverse
  let (outcomes, s) := s.interrupt.feedAll true lines
  let (closing, s) := s.close true closingLines
  (outcomes ++ closing, s)

/-- Has the unit being typed edited. -/
def editBlock (s : Session) (editor : Editor) : Except EditorFault (List Outcome × Session) := do
  return s.replaceBlock (← editor s.buffer.block)

def fileHeader : List String :=
  ["### current snek session - make changes and save to reevaluate session.",
   "### lines beginning with ### will be ignored"]

def commentMark : String := "### "

/-- Typed lines stand in the file as they are, output as comments. -/
def fileLine : Entry → String
  | .input _ code => code
  | .output text => commentMark ++ text

/-- The session as a file: the transcript, and the current line as its last comment. -/
def toFile (s : Session) : String :=
  "\n".intercalate (fileHeader ++ s.transcript.map fileLine ++
    [commentMark ++ s.buffer.current, ""])

/-- What an edited session file holds. -/
structure SessionFile where
  code : List String
  current : String
  deriving DecidableEq, Repr

/-- The last line without the mark of comments, if it is one, and the lines before it. -/
def splitCurrent (lines : List String) : List String × String :=
  match lines.getLast? with
  | none => (lines, "")
  | some last =>
    match commentMark.toList.isPrefixOf last.toList with
    | true => (lines.dropLast, String.ofList (last.toList.drop commentMark.length))
    | false => (lines, "")

/-- Reads a session file. One blank line at its end is no part of it, and what starts with three
hash signs is not code. -/
def SessionFile.ofText (text : String) : SessionFile :=
  let lines := editedLines text
  let lines := if lines.getLast?.any isBlankLine then lines.dropLast else lines
  let (lines, current) := splitCurrent lines
  ⟨lines.filter fun line => !"###".toList.isPrefixOf line.toList, current⟩

/-- Replays the code of a session file from the start; the history stays as it is. A file without
code changes nothing. -/
def replay (s : Session) (file : SessionFile) : Bool × Session :=
  if file.code.all isBlankLine then (false, s)
  else
    let fresh := { s with
      machine := .fresh, features := s.initialFeatures, transcript := []
      buffer := s.buffer.clear }
    let (_, s) := fresh.feedAll false file.code
    let (_, s) := s.close false closingLines
    (true, s.setCurrent file.current)

/-- Has the whole session edited; tells whether it was replayed. -/
def editSession (s : Session) (editor : Editor) : Except EditorFault (Bool × Session) := do
  return s.replay (.ofText (← editor s.toFile))

end Session

end Console
