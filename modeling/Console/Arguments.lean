import Console.Fault
import Console.Value

/-!
# Arguments of built-in callees

How many arguments a built-in function or method takes. The functions below hand out the arguments
of a call that takes no keywords, or the fault that the call is.
-/

namespace Console.Arguments

/-- Refuses keywords. -/
def withoutKeywords (args : Arguments) (callee : String) : Except Fault (List Value) :=
  if args.keywords.isEmpty then .ok args.positional else .error (.noKeywords callee)

/-- The arguments in the shape that `shape?` gives them, or the number that would have done. -/
def shaped {α : Type} (args : Arguments) (callee : String)
    (shape? : List Value → Except Arity α) : Except Fault α := do
  let given ← args.withoutKeywords callee
  match shape? given with
  | .ok a => .ok a
  | .error arity => .error (.wrongCount callee arity given.length)

def none (args : Arguments) (callee : String) : Except Fault Unit :=
  args.shaped callee fun
    | [] => .ok ()
    | _ => .error (.exactly 0)

def one (args : Arguments) (callee : String) : Except Fault Value :=
  args.shaped callee fun
    | [a] => .ok a
    | _ => .error (.exactly 1)

def two (args : Arguments) (callee : String) : Except Fault (Value × Value) :=
  args.shaped callee fun
    | [a, b] => .ok (a, b)
    | _ => .error (.exactly 2)

def three (args : Arguments) (callee : String) : Except Fault (Value × Value × Value) :=
  args.shaped callee fun
    | [a, b, c] => .ok (a, b, c)
    | _ => .error (.exactly 3)

def upToOne (args : Arguments) (callee : String) : Except Fault (Option Value) :=
  args.shaped callee fun
    | [] => .ok Option.none
    | [a] => .ok (some a)
    | _ => .error (.atMost 1)

def upToTwo (args : Arguments) (callee : String) :
    Except Fault (Option Value × Option Value) :=
  args.shaped callee fun
    | [] => .ok (Option.none, Option.none)
    | [a] => .ok (some a, Option.none)
    | [a, b] => .ok (some a, some b)
    | _ => .error (.atMost 2)

def oneOrTwo (args : Arguments) (callee : String) : Except Fault (Value × Option Value) :=
  args.shaped callee fun
    | [] => .error (.atLeast 1)
    | [a] => .ok (a, Option.none)
    | [a, b] => .ok (a, some b)
    | _ => .error (.atMost 2)

def twoOrThree (args : Arguments) (callee : String) :
    Except Fault (Value × Value × Option Value) :=
  args.shaped callee fun
    | [] | [_] => .error (.atLeast 2)
    | [a, b] => .ok (a, b, Option.none)
    | [a, b, c] => .ok (a, b, some c)
    | _ => .error (.atMost 3)

/-- One to three arguments: the first, and the others. -/
def oneToThree (args : Arguments) (callee : String) :
    Except Fault (Value × Option Value × Option Value) :=
  args.shaped callee fun
    | [] => .error (.atLeast 1)
    | [a] => .ok (a, Option.none, Option.none)
    | [a, b] => .ok (a, some b, Option.none)
    | [a, b, c] => .ok (a, some b, some c)
    | _ => .error (.atMost 3)

end Console.Arguments
