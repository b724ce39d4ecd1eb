/-!
# Exceptions

The classes of exceptions, and what is raised: a class, a message and the line of the innermost
statement that was running.
-/

namespace Console

inductive ExceptionKind
  | exception
  | arithmeticError
  | assertionError
  | attributeError
  | importError
  | indexError
  | keyError
  | nameError
  | overflowError
  | runtimeError
  | typeError
  | valueError
  | zeroDivisionError
  deriving DecidableEq, Repr

namespace ExceptionKind

def all : List ExceptionKind :=
  [exception, arithmeticError, assertionError, attributeError, importError, indexError, keyError,
   nameError, overflowError, runtimeError, typeError, valueError, zeroDivisionError]

def name : ExceptionKind → String
  | exception => "Exception"
  | arithmeticError => "ArithmeticError"
  | assertionError => "AssertionError"
  | attributeError => "AttributeError"
  | importError => "ImportError"
  | indexError => "IndexError"
  | keyError => "KeyError"
  | nameError => "NameError"
  | overflowError => "OverflowError"
  | runtimeError => "RuntimeError"
  | typeError => "TypeError"
  | valueError => "ValueError"
  | zeroDivisionError => "ZeroDivisionError"

/-- The class directly above. -/
def parent? : ExceptionKind → Option ExceptionKind
  | exception => none
  | zeroDivisionError | overflowError => some arithmeticError
  | _ => some exception

/-- Whether `k` is `target` or lies below it. -/
def derivesFrom (k target : ExceptionKind) : Bool :=
  k = target || k.parent? = some target || (k.parent?.bind parent?) = some target

end ExceptionKind

/-- Something raised. -/
structure Exception where
  kind : ExceptionKind
  message : String
  line : Option Nat
  deriving DecidableEq, Repr

namespace Exception

/-- The class alone, or the class and the message. -/
def text (e : Exception) : String :=
  if e.message.isEmpty then e.kind.name else e.kind.name ++ ": " ++ e.message

/-- Notes a line unless an inner statement did. -/
def atLine (e : Exception) (line : Nat) : Exception := { e with line := some (e.line.getD line) }

/-- What the console shows of an exception that reached the top. -/
def traceback (e : Exception) : String :=
  let place := match e.line with
    | some line => s!"  File \"<input>\", line {line}, in <module>\n"
    | none => ""
  "Traceback (most recent call last):\n" ++ place ++ e.text ++ "\n"

end Exception

end Console
