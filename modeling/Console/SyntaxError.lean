import Console.Source
import Console.Text

/-!
# Syntax errors

A syntax error is a cause and a place. Some causes can be cured by more text; the others are final.
`SyntaxError.render` shows an error under the line of source where it stands.
-/

namespace Console

/-- What would have to follow for a text to be complete. -/
inductive Missing
  /-- A bracket is still open. -/
  | closingBracket
  /-- A triple-quoted string is still open. -/
  | closingQuotes
  /-- A backslash stands at the very end. -/
  | continuation
  /-- A block header has no body yet. -/
  | block
  /-- An indented block may still go on. -/
  | blockEnd
  deriving DecidableEq, Repr

/-- Why a text is not a program. -/
inductive SyntaxFault
  | incomplete (missing : Missing)
  | invalidSyntax
  | unexpectedIndent
  | unmatchedUnindent
  | invalidCharacter
  | unterminatedString
  | truncatedEscape
  | invalidEscape
  | invalidInteger
  | integerTooLarge
  | invalidFloat
  | strayBackslash
  | tooManyBrackets
  | expectedBlock
  | multipleStatements
  | outsideLoop (jump : String)
  | returnOutsideFunction
  | cannotDelete
  | cannotAssign
  | cannotAugment
  | lambdaExpression
  | slice
  | duplicateParameter
  | defaultOrder
  | repeatedKeyword
  | positionalAfterKeyword
  | notAChance
  | unknownFeature (name : String)
  | lateFuture
  deriving DecidableEq, Repr

namespace SyntaxFault

def message : SyntaxFault → String
  | .incomplete .closingBracket => "unexpected EOF while parsing"
  | .incomplete .closingQuotes => "EOF while scanning triple-quoted string literal"
  | .incomplete .continuation => "unexpected EOF after line continuation"
  | .incomplete .block => "expected an indented block"
  | .incomplete .blockEnd => "unexpected EOF while parsing"
  | .invalidSyntax => "invalid syntax"
  | .unexpectedIndent => "unexpected indent"
  | .unmatchedUnindent => "unindent does not match any outer indentation level"
  | .invalidCharacter => "invalid character"
  | .unterminatedString => "EOL while scanning string literal"
  | .truncatedEscape => "truncated escape sequence"
  | .invalidEscape => "invalid escape sequence"
  | .invalidInteger => "invalid integer literal"
  | .integerTooLarge => "integer literal too large"
  | .invalidFloat => "invalid float literal"
  | .strayBackslash => "unexpected character after line continuation character"
  | .tooManyBrackets => "too many nested parentheses"
  | .expectedBlock => "expected an indented block"
  | .multipleStatements => "multiple statements found while compiling a single statement"
  | .outsideLoop jump => s!"'{jump}' outside loop"
  | .returnOutsideFunction => "'return' outside function"
  | .cannotDelete => "can't delete expression"
  | .cannotAssign => "can't assign to literal"
  | .cannotAugment => "illegal expression for augmented assignment"
  | .lambdaExpression => "lambda expressions are not supported"
  | .slice => "slicing is not supported"
  | .duplicateParameter => "duplicate argument in function definition"
  | .defaultOrder => "non-default argument follows default argument"
  | .repeatedKeyword => "keyword argument repeated"
  | .positionalAfterKeyword => "non-keyword arg after keyword arg"
  | .notAChance => "not a chance"
  | .unknownFeature name => s!"future feature {name} is not defined"
  | .lateFuture => "from __future__ imports must occur at the beginning of the file"

/-- What more text would have to bring, if more text can help. -/
def missing? : SyntaxFault → Option Missing
  | .incomplete missing => some missing
  | _ => none

end SyntaxFault

/-- A fault at a line (from 1) and column (from 0). -/
structure SyntaxError where
  fault : SyntaxFault
  line : Nat
  column : Nat
  deriving DecidableEq, Repr

namespace SyntaxError

def of (fault : SyntaxFault) (p : Position) : SyntaxError := ⟨fault, p.line, p.column⟩

def message (e : SyntaxError) : String := e.fault.message

/-- Whether more text could cure the error. -/
def isIncomplete (e : SyntaxError) : Bool := e.fault.missing?.isSome

/-- The error in one line. -/
def summary (e : SyntaxError) : String :=
  s!"SyntaxError: {e.message} (line {e.line}, column {e.column})"

/-- The line of source without surrounding blanks, and a caret below the column of the error. -/
def excerpt (e : SyntaxError) (source : String) : List Char :=
  match (Text.lines source.toList)[e.line - 1]? with
  | none => []
  | some line =>
    let skipped := line.length - (Text.trimStart line).length
    Text.spaces 4 ++ Text.trim line ++ ['\n'] ++
      Text.spaces (4 + (e.column - skipped)) ++ ['^', '\n']

/-- The error as the console shows it. -/
def render (e : SyntaxError) (source : String) : String :=
  s!"  File \"<input>\", line {e.line}\n" ++ String.ofList (e.excerpt source) ++
    s!"SyntaxError: {e.message}\n"

end SyntaxError

end Console
