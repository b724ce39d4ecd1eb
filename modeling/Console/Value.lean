import Console.Builtin
import Console.Exception

/-!
# Values

Numbers, texts and other plain values are held directly; whatever has an identity is a reference to
an object of the heap.
-/

namespace Console

/-- The kinds of objects that have an identity. -/
inductive Kind
  | list
  | tuple
  | dict
  | func
  | cls
  | inst
  | exc
  | scope
  deriving DecidableEq, Repr

/-- A reference to the object of its kind created `index`-th. -/
structure Ref (kind : Kind) where
  index : Nat
  deriving DecidableEq, Repr, Inhabited

inductive Value
  | none
  | bool (b : Bool)
  | int (n : Int64)
  | float (x : Float)
  | str (s : String)
  | list (r : Ref .list)
  | tuple (r : Ref .tuple)
  | dict (r : Ref .dict)
  | function (r : Ref .func)
  | builtin (b : Builtin)
  | listMethod (r : Ref .list) (m : ListMethod)
  | strMethod (s : String) (m : StrMethod)
  | dictMethod (r : Ref .dict) (m : DictMethod)
  | cls (r : Ref .cls)
  | instance (r : Ref .inst)
  /-- A function with the instance that becomes its first argument. -/
  | boundMethod (receiver : Ref .inst) (function : Ref .func)
  | exceptionType (kind : ExceptionKind)
  | exception (r : Ref .exc)
  deriving Inhabited

namespace Value

/-- The name of a value's type. -/
def typeName : Value → String
  | .none => "NoneType"
  | .bool _ => "bool"
  | .int _ => "int"
  | .float _ => "float"
  | .str _ => "str"
  | .list _ => "list"
  | .tuple _ => "tuple"
  | .dict _ => "dict"
  | .function _ => "function"
  | .builtin _ | .listMethod _ _ | .strMethod _ _ | .dictMethod _ _ => "builtin_function_or_method"
  | .cls _ => "classobj"
  | .instance _ => "instance"
  | .boundMethod _ _ => "instancemethod"
  | .exceptionType _ => "type"
  | .exception _ => "exception"

def isNone : Value → Bool
  | .none => true
  | _ => false

/-- The whole number that an int or a bool stands for. -/
def asInt? : Value → Option Int64
  | .int n => some n
  | .bool b => some (if b then 1 else 0)
  | _ => Option.none

end Value

/-- A whole or a floating-point number. -/
inductive Number
  | int (n : Int64)
  | float (x : Float)

def Number.toFloat : Number → Float
  | .int n => n.toFloat
  | .float x => x

/-- The number that a value stands for. -/
def Value.asNumber? : Value → Option Number
  | .int n => some (.int n)
  | .bool b => some (.int (if b then 1 else 0))
  | .float x => some (.float x)
  | _ => Option.none

/-- The arguments of a call. -/
structure Arguments where
  positional : List Value
  keywords : List (String × Value)

end Console
