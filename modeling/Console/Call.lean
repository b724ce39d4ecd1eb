import Console.Builtin.Call
import Console.Flow
import Console.Frame

/-!
# Calls

Binding arguments to parameters, running a function in a scope of its own, and making instances and
exceptions.
-/

namespace Console

namespace Call

/-- A parameter with the value given to it so far. -/
structure Slot where
  name : String
  value : Option Value

/-- The parameters with the positional arguments, from the left. -/
def fillPositional : List Parameter → List Value → List Slot
  | [], _ => []
  | p :: ps, [] => ⟨p.name, none⟩ :: fillPositional ps []
  | p :: ps, v :: vs => ⟨p.name, some v⟩ :: fillPositional ps vs

/-- Gives a value to the parameter that a keyword names. -/
def fillKeyword (callee keyword : String) (v : Value) : List Slot → Except Fault (List Slot)
  | [] => .error (.unexpectedKeyword callee keyword)
  | slot :: rest =>
    if slot.name = keyword then
      if slot.value.isSome then .error (.multipleValues callee keyword)
      else .ok (⟨keyword, some v⟩ :: rest)
    else do return slot :: (← fillKeyword callee keyword v rest)

/-- The bindings of the parameters; those without value take their defaults. -/
def fillDefaults (callee : String) : List Slot → List (Option Value) → Except Fault Bindings
  | slot :: slots, default :: defaults =>
    match slot.value.or default with
    | some v => do return (slot.name, v) :: (← fillDefaults callee slots defaults)
    | none => .error (.missingArgument callee slot.name)
  | _, _ => .ok []

/-- The bindings that a call starts with. -/
def bindArguments (f : FunctionObject) (args : Arguments) : Except Fault Bindings := do
  if f.parameters.length < args.positional.length then
    throw (.tooManyPositional f.name f.parameters.length args.positional.length)
  let slots ← args.keywords.foldlM (fun slots k => fillKeyword f.name k.1 k.2 slots)
    (fillPositional f.parameters args.positional)
  fillDefaults f.name slots f.defaults

/-- Runs something one call deeper. -/
def deeper {α : Type} (x : Eval α) : Eval α := do
  if Machine.maxDepth ≤ (← get).depth then Eval.fail .tooDeep
  modify fun m => { m with depth := m.depth + 1 }
  fun m => match x m with
    | .ok a m => .ok a { m with depth := m.depth - 1 }
    | .error stop m => .error stop { m with depth := m.depth - 1 }

/-- Calls a function; `run` runs its body. -/
def function (run : Frame → List Statement → Eval Flow) (r : Ref .func) (args : Arguments) :
    Eval Value := do
  let f ← Eval.ask (·.function r)
  let bindings ← Eval.ofFault (bindArguments f args)
  let flow ← deeper do
    let scope ← Eval.newScope bindings f.closure
    run (.function scope (allDeclaredGlobals f.body)) f.body
  match flow with
  | .return v => return v
  | _ => return .none

/-- Makes an instance and has its class set it up. An initialiser that is no function is called
without the instance. -/
def instantiate (call : Value → Arguments → Eval Value) (r : Ref .cls) (args : Arguments) :
    Eval Value := do
  let object := Value.instance (← Eval.newInstance r)
  match ← Eval.ask (·.classAttr? r "__init__") with
  | some (.function init) =>
    let result ← call (.function init) { args with positional := object :: args.positional }
    if !result.isNone then Eval.fail .initReturned
  | some initialiser => discard <| call initialiser args
  | none =>
    if !(args.positional.isEmpty && args.keywords.isEmpty) then
      Eval.fail (.noArguments (← Eval.ask (·.cls r)).name)
  return object

/-- Makes an exception. Its message is the text of one argument, or all of several as a tuple is
written. -/
def exception (caller : Caller) (kind : ExceptionKind) (args : Arguments) : Eval Value := do
  let message ← match ← Eval.ofFault (args.withoutKeywords kind.name) with
    | [] => pure ""
    | [v] => Eval.str caller v
    | many => Eval.repr caller (← Eval.newTuple many.toArray)
  Eval.newException kind message

end Call

end Console
