import Console.Text
import Console.Text.Letters

/-!
# Indentation of the next line

How far the line below a given one is likely to be indented, judged by its text alone.
-/

namespace Console.Indent

open Text

/-- Words that usually end the block they stand in. -/
def closingWords : List String := ["return", "pass", "raise", "yield", "break", "continue"]

/-- The width of leading spaces and tabs; a tab goes to the next multiple of eight. -/
def leadingWidth (line : List Char) : Nat :=
  (line.takeWhile fun c => c == ' ' || c == '\t').foldl
    (fun width c => if c = '\t' then (width / 8 + 1) * 8 else width + 1) 0

/-- Inside quotes, whether the next character is escaped; or outside. -/
inductive Quoting
  | outside
  | inside (mark : Char) (escaped : Bool)

/-- The line up to a hash sign that stands in no quotes. -/
def codeFrom : Quoting → List Char → List Char
  | _, [] => []
  | .outside, c :: r =>
    if c = '#' then []
    else if c = '\x27' ∨ c = '\x22' then c :: codeFrom (.inside c false) r
    else c :: codeFrom .outside r
  | .inside mark true, c :: r => c :: codeFrom (.inside mark false) r
  | .inside mark false, c :: r =>
    if c = '\\' then c :: codeFrom (.inside mark true) r
    else if c = mark then c :: codeFrom .outside r
    else c :: codeFrom (.inside mark false) r

/-- The line without its comment. -/
def withoutComment (line : List Char) : List Char := codeFrom .outside line

/-- Whether a text starts with a word that does not go on. -/
def startsWithWord (text : List Char) (word : String) : Bool :=
  word.toList.isPrefixOf text &&
    match text.drop word.length with
    | c :: _ => !isNamePart c
    | [] => true

/-- The column predicted for the line below `line`: deeper behind a colon, shallower below a blank
line or a statement that ends its block. Columns and indentations stand for machine numbers, and stay
below their limit while `8 * line.length + tabLength` does. -/
def predict (line : List Char) (tabLength : Nat) : Nat :=
  let base := leadingWidth line
  let code := trimEnd (withoutComment line)
  if code.getLast? = some ':' then base + tabLength
  else if !line.isEmpty && allBlank line then base - tabLength
  else if !code.contains ':' && closingWords.any (startsWithWord (trimStart code)) then
    base - tabLength
  else base

end Console.Indent
