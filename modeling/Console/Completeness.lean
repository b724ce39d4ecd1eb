import Console.Program

/-!
# Completeness

Whether lines typed so far make a whole statement, may become one, or never will. A text that does
not compile still waits for more when an indented body below its last line would help it; two blank
lines end the waiting.
-/

namespace Console

/-- How a text fares as one interactive statement. -/
inductive Probe
  | complete
  | incomplete
  | invalid
  deriving DecidableEq, Repr

def probe (text : String) : Probe :=
  match Program.compile text .single with
  | .ok _ => .complete
  | .error e => if e.isIncomplete then .incomplete else .invalid

/-- What to do with the lines typed so far. -/
inductive Completeness
  | finished
  | needsMore
  | rejected
  deriving DecidableEq, Repr

namespace Completeness

/-- Nothing more is read. -/
def isFinished : Completeness → Bool
  | .needsMore => false
  | _ => true

/-- The text compiles or may come to. -/
def willParse : Completeness → Bool
  | .rejected => false
  | _ => true

/-- Whether the last two of at least three physical lines hold only blanks. -/
def endsWithTwoBlankLines (text : String) : Bool :=
  match (Text.pieces '\n' text.toList).reverse with
  | last :: previous :: _ :: _ => Text.allBlank last && Text.allBlank previous
  | _ => false

/-- The number of spaces that the last line with more than blanks starts with. -/
def lastIndent (text : List Char) : Nat :=
  match (Text.lines text).reverse.find? fun line => !Text.allBlank line with
  | some line => (line.takeWhile (· == ' ')).length
  | none => 0

/-- The text with a body below its last line. -/
def withBody (text : String) : String :=
  text ++ "\n" ++ String.ofList (Text.spaces (lastIndent text.toList + 4)) ++ "pass"

def classify (text : String) : Completeness :=
  match probe text with
  | .complete => .finished
  | .incomplete => .needsMore
  | .invalid =>
    if endsWithTwoBlankLines text then .rejected
    else if probe (withBody text) = .invalid then .rejected
    else .needsMore

end Completeness

end Console
