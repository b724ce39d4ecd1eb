import Console.Token
import Console.Text
import Console.Text.Letters

/-!
# Highlighting

A line is cut into coloured spans; what lies between them is blank. The scan never fails: a string
that is not closed runs to the end of the line.
-/

namespace Console.Highlight

open Text

inductive SpanKind
  | keyword
  | name
  | number
  | string
  | comment
  | operator
  deriving DecidableEq, Repr

structure Span where
  kind : SpanKind
  text : List Char
  /-- The byte offset of the span in its line. -/
  offset : Nat
  deriving DecidableEq, Repr

/-- How many characters of a string are left up to its closing quotes, these included. -/
def bodyLength (mark : Char) (triple : Bool) : List Char → Nat
  | [] => 0
  | [_] => 1
  | c :: d :: r =>
    if c = '\\' then 2 + bodyLength mark triple r
    else if c = mark ∧ !triple then 1
    else if c = mark ∧ [mark, mark].isPrefixOf (d :: r) then 3
    else 1 + bodyLength mark triple (d :: r)

/-- How many characters of a literal follow its opening quote. -/
def literalLength (mark : Char) (rest : List Char) : Nat :=
  if [mark, mark].isPrefixOf rest then 2 + bodyLength mark true (rest.drop 2)
  else bodyLength mark false rest

/-- A numeral goes on with ASCII letters and digits, points and underscores. -/
def isNumberPart (c : Char) : Bool := c.isAlphanum || c == '.' || c == '_'

/-- The kind of the span that starts with `c`, and how many characters of `rest` belong to it. -/
def spanAt (c : Char) (rest : List Char) : SpanKind × Nat :=
  if c = '#' then (.comment, rest.length)
  else if c = '\x27' ∨ c = '\x22' then (.string, literalLength c rest)
  else if c.isDigit then (.number, (rest.takeWhile isNumberPart).length)
  else if isNameStart c then
    let tail := rest.takeWhile isNamePart
    let word := String.ofList (c :: tail)
    let plain := (if isKeyword word then .keyword else .name, tail.length)
    match rest.drop tail.length with
    | mark :: after =>
      if (mark = '\x27' ∨ mark = '\x22') ∧
          stringMarks.contains (String.ofList ((c :: tail).map Char.toLower)) then
        (.string, tail.length + 1 + literalLength mark after)
      else plain
    | [] => plain
  else (.operator, 0)

/-- The spans of the text at a cursor. -/
def spansFrom (c : Cursor) : List Span :=
  match _ : c.rest with
  | [] => []
  | ch :: rest =>
    if isBlank ch then spansFrom (c.drop 1)
    else
      let found := spanAt ch rest
      ⟨found.1, ch :: rest.take found.2, c.pos.offset⟩ :: spansFrom (c.drop (found.2 + 1))
termination_by c.rest.length
decreasing_by
  · simp [‹c.rest = _›]
  · simp only [Cursor.rest_drop, List.length_drop, ‹c.rest = _›, List.length_cons]; omega

/-- The spans of a line, from left to right. -/
def spans (line : String) : List Span := spansFrom (.ofString line)

/-- The code that switches a colour on. -/
def colourCode (number : String) : List Char := ('\x1b' :: '[' :: number.toList) ++ ['m']

/-- The code that switches colours off. -/
def resetCode : List Char := colourCode "0"

/-- Names are coloured where they are known. -/
def colourOf? (names : List String) (s : Span) : Option (List Char) :=
  match s.kind with
  | .string => some (colourCode "33")
  | .keyword => some (colourCode "35")
  | .number => some (colourCode "36")
  | .comment => some (colourCode "90")
  | .name => if names.contains (String.ofList s.text) then some (colourCode "32") else none
  | .operator => none

def paint (names : List String) (s : Span) : List Char :=
  match colourOf? names s with
  | some code => code ++ s.text ++ resetCode
  | none => s.text

/-- The text at a cursor with its spans painted and all else as it is. -/
def paintFrom (names : List String) (c : Cursor) : List Char :=
  match _ : c.rest with
  | [] => []
  | ch :: rest =>
    if isBlank ch then ch :: paintFrom names (c.drop 1)
    else
      let found := spanAt ch rest
      paint names ⟨found.1, ch :: rest.take found.2, c.pos.offset⟩ ++
        paintFrom names (c.drop (found.2 + 1))
termination_by c.rest.length
decreasing_by
  · simp [‹c.rest = _›]
  · simp only [Cursor.rest_drop, List.length_drop, ‹c.rest = _›, List.length_cons]; omega

/-- A line with colours, unless they are off. -/
def render (line : String) (names : List String) (colour : Bool) : String :=
  if colour then String.ofList (paintFrom names (.ofString line)) else line

end Console.Highlight
