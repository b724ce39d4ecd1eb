import Console.Source

/-!
# Tokens

The words of the language, with where each starts.
-/

namespace Console

inductive TokenKind
  | name (text : String)
  | int (value : Int64)
  | float (value : Float)
  | str (text : String)
  | op (symbol : String)
  | newline
  | indent
  | dedent
  | endMarker
  deriving BEq, Repr, Inhabited

structure Token where
  kind : TokenKind
  pos : Position
  deriving Repr

/-- The reserved words. -/
def keywords : List String :=
  ["and", "as", "assert", "break", "class", "continue", "def", "del", "elif", "else", "except",
   "finally", "for", "from", "global", "if", "import", "in", "is", "lambda", "nonlocal", "not",
   "or", "pass", "raise", "return", "try", "while", "with", "yield", "True", "False", "None"]

def isKeyword (word : String) : Bool := keywords.contains word

/-- The operators; of two that fit, the one listed first is read. -/
def operators : List String :=
  ["**=", "//=", ">>=", "<<=", "...", "**", "//", "==", "!=", "<=", ">=", "+=", "-=", "*=", "/=",
   "%=", "&=", "|=", "^=", "->", "<<", ">>", "+", "-", "*", "/", "%", "<", ">", "=", "(", ")", "[",
   "]", "\x7b", "\x7d", ",", ":", ".", ";", "@", "&", "|", "^", "~"]

inductive Bracket
  | round
  | square
  | curly
  deriving DecidableEq, Repr

namespace Bracket

def opened? : String → Option Bracket
  | "(" => some .round
  | "[" => some .square
  | "\x7b" => some .curly
  | _ => none

def closed? : String → Option Bracket
  | ")" => some .round
  | "]" => some .square
  | "\x7d" => some .curly
  | _ => none

/-- The deepest nesting of brackets. -/
def maxDepth : Nat := 200

end Bracket

/-- Marks that may stand before a string literal: those with an `r` keep backslashes. -/
def stringMarks : List String := ["r", "u", "ur", "b", "br", "rb"]

end Console
