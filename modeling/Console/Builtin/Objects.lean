import Console.Arguments
import Console.Attributes
import Console.Operators

/-!
# Built-in functions that ask about objects
-/

namespace Console.Builtin

open Eval

/-- Whether a value is one of the values that a type among the built-in functions makes. -/
def isOfType? (v : Value) : Builtin → Option Bool
  | int => some (v matches .int _ | .bool _)
  | float => some (v matches .float _)
  | bool => some (v matches .bool _)
  | str => some (v matches .str _)
  | list => some (v matches .list _)
  | tuple => some (v matches .tuple _)
  | dict => some (v matches .dict _)
  | _ => none

/-- Whether a value is an instance of a type or class, or of one in a tuple. The members of a tuple
are tried up to the first that fits. -/
def isInstance (h : Heap) (v : Value) : (depth : Nat) → Value → Except Stop Bool
  | 0, _ => .error .exhausted
  | depth + 1, type =>
    match type with
    | .tuple r => anyOf (isInstance h v depth) (h.tuple r).toList
    | .cls target =>
      match v with
      | .instance r => .ok (h.derivesFrom (h.inst r).cls target)
      | _ => .ok false
    | .exceptionType target =>
      match v with
      | .exception r => .ok ((h.exception r).kind.derivesFrom target)
      | _ => .ok false
    | .builtin b =>
      match isOfType? v b with
      | some answer => .ok answer
      | none => .error (.raised Fault.notAType.exception)
    | _ => .error (.raised Fault.notAType.exception)
where
  anyOf (test : Value → Except Stop Bool) : List Value → Except Stop Bool
    | [] => .ok false
    | t :: ts => do if ← test t then return true else anyOf test ts

def callIsinstance (args : Arguments) : Eval Value := do
  let (v, type) ← ofFault (args.two "isinstance")
  match ← ask fun h => isInstance h v (h.tuples.size + 1) type with
  | .ok answer => return .bool answer
  | .error stop => throw stop

def isCallable : Value → Bool
  | .function _ | .builtin _ | .listMethod _ _ | .strMethod _ _ | .dictMethod _ _
  | .boundMethod _ _ | .cls _ | .exceptionType _ => true
  | _ => false

def callCallable (args : Arguments) : Eval Value := do
  return .bool (isCallable (← ofFault (args.one "callable")))

/-- Names in order, each once. -/
def inOrder (names : List String) : List String :=
  (names.mergeSort fun a b => a ≤ b).eraseReps

/-- The names that an object has, or the global names. -/
def namesOf (m : Machine) : Option Value → List String
  | none => m.globals.names
  | some (.instance r) =>
    let i := m.heap.inst r
    i.attrs.names ++ m.heap.classNames i.cls
  | some (.cls r) => m.heap.classNames r
  | some v => builtinMethodNames v

def callDir (args : Arguments) : Eval Value := do
  let v ← ofFault (args.upToOne "dir")
  newList ((inOrder (namesOf (← get) v)).map Value.str).toArray

def attributeName : Value → Except Fault String
  | .str s => .ok s
  | v => .error (.attributeName v.typeName)

def callGetattr (args : Arguments) : Eval Value := do
  let (object, name, default) ← ofFault (args.twoOrThree "getattr")
  let name ← ofFault (attributeName name)
  match ← attr? object name, default with
  | some v, _ => return v
  | none, some v => return v
  | none, none => noAttribute object name

def callHasattr (args : Arguments) : Eval Value := do
  let (object, name) ← ofFault (args.two "hasattr")
  let name ← ofFault (attributeName name)
  return .bool (← attr? object name).isSome

def callSetattr (args : Arguments) : Eval Value := do
  let (object, name, v) ← ofFault (args.three "setattr")
  let name ← ofFault (attributeName name)
  setAttr object name v
  return .none

end Console.Builtin
