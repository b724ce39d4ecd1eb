import Console.Builtin.Lists
import Console.Builtin.Numbers
import Console.Builtin.Objects
import Console.Builtin.Sequences
import Console.Builtin.Texts

/-!
# Calls of built-in functions

What is printed and how values become texts; and which function a call runs.
-/

namespace Console.Builtin

open Eval

structure PrintOptions where
  separator : String
  ending : String

/-- The value of a print option that is a text or none. -/
def printOption (keyword : String) (current : String) : Value → Except Fault String
  | .str s => .ok s
  | .none => .ok current
  | v => .error (.printOption keyword v.typeName)

def printOptions (options : PrintOptions) : List (String × Value) → Except Fault PrintOptions
  | [] => .ok options
  | (keyword, v) :: rest => do
    if keyword = "sep" then
      printOptions { options with separator := ← printOption keyword options.separator v } rest
    else if keyword = "end" then
      printOptions { options with ending := ← printOption keyword options.ending v } rest
    else .error (.badKeyword keyword "print")

def callPrint (caller : Caller) (args : Arguments) : Eval Value := do
  let options ← ofFault (printOptions ⟨" ", "\n"⟩ args.keywords)
  let parts ← args.positional.mapM (Eval.str caller)
  write (options.separator.intercalate parts ++ options.ending)
  return .none

def callRepr (caller : Caller) (args : Arguments) : Eval Value := do
  return .str (← Eval.repr caller (← ofFault (args.one "repr")))

def callStr (caller : Caller) (args : Arguments) : Eval Value := do
  match ← ofFault (args.upToOne "str") with
  | none => return .str ""
  | some v => return .str (← Eval.str caller v)

def call (caller : Caller) : Builtin → Arguments → Eval Value
  | print => callPrint caller
  | repr => callRepr caller
  | str => callStr caller
  | abs => callAbs
  | int => callInt
  | float => callFloat
  | bool => callBool
  | divmod => callDivmod caller
  | min => callExtreme "min" .lt
  | max => callExtreme "max" .gt
  | sum => callSum caller
  | len => callLen
  | list => callList
  | tuple => callTuple
  | dict => callDict
  | range => callRange
  | sorted => callSorted caller
  | enumerate => callEnumerate
  | zip => callZip
  | isinstance => callIsinstance
  | callable => callCallable
  | dir => callDir
  | getattr => callGetattr
  | hasattr => callHasattr
  | setattr => callSetattr

end Console.Builtin
