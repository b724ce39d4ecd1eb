import Console.Token.Lexer
import Console.Tree

/-!
# Reading tokens

A parser takes tokens from the front of a stream or fails with a syntax error. `Context` says what
surrounds the place being parsed.
-/

namespace Console.Parse

open Token

structure Context where
  /-- The source can not go on: its end closes what is open. -/
  terminated : Bool
  /-- Inside the body of a loop, so that a jump has a target. -/
  inLoop : Bool
  /-- Inside the body of a function. -/
  inFunction : Bool

abbrev Parser := StateT (List Token) (Except SyntaxError)

/-- The next token; behind the last one there is nothing but the end. -/
def front (tokens : List Token) : Token := tokens.head?.getD ⟨.endMarker, .start⟩

def current : Parser Token := return front (← get)

/-- Past one token; the end marker is never passed. -/
def advance : Parser Unit := modify List.tail

/-- A fault at the next token. -/
def fail {α : Type} (fault : SyntaxFault) : Parser α := do
  throw (.of fault (← current).pos)

/-- What is wrong with a token that cannot stand here. The end of a source that may still go on is
no fault of the source. -/
def unexpectedFault (terminated : Bool) : TokenKind → SyntaxFault
  | .endMarker => if terminated then .invalidSyntax else .incomplete .blockEnd
  | .indent => .unexpectedIndent
  | .dedent => .unmatchedUnindent
  | _ => .invalidSyntax

def unexpected {α : Type} (ctx : Context) : Parser α := do
  fail (unexpectedFault ctx.terminated (← current).kind)

def isOp (t : Token) (symbol : String) : Bool :=
  match t.kind with
  | .op s => s == symbol
  | _ => false

def isWord (t : Token) (word : String) : Bool :=
  match t.kind with
  | .name s => s == word
  | _ => false

def isNewline (t : Token) : Bool :=
  match t.kind with
  | .newline => true
  | _ => false

def isEnd (t : Token) : Bool :=
  match t.kind with
  | .endMarker => true
  | _ => false

def atOp (symbol : String) : Parser Bool := return isOp (← current) symbol

def atWord (word : String) : Parser Bool := return isWord (← current) word

def atNewline : Parser Bool := return isNewline (← current)

/-- Takes an operator if it comes next. -/
def eatOp (symbol : String) : Parser Bool := do
  if ← atOp symbol then advance; return true else return false

def eatWord (word : String) : Parser Bool := do
  if ← atWord word then advance; return true else return false

def expectOp (ctx : Context) (symbol : String) : Parser Unit := do
  unless ← eatOp symbol do unexpected ctx

def expectWord (ctx : Context) (word : String) : Parser Unit := do
  unless ← eatWord word do unexpected ctx

def expectNewline (ctx : Context) : Parser Unit := do
  if ← atNewline then advance else unexpected ctx

/-- A name that is not reserved. -/
def identifier (ctx : Context) : Parser String := do
  match (← current).kind with
  | .name word => if isKeyword word then unexpected ctx else advance; return word
  | _ => unexpected ctx

end Console.Parse
