import Console.Machine

/-!
# Frames

Where the code that is being run finds and binds its names: at top level among the globals, in a
function or a class body in a scope of its own.
-/

namespace Console

inductive Frame
  /-- Top-level code, which may show the values of its expression statements. -/
  | module (echo : Bool)
  /-- A function body with its scope and the names that it declares global. -/
  | function (scope : Ref .scope) (globals : List String)
  /-- A class body with its scope and the scope around the class. -/
  | classBody (scope : Ref .scope) (around : Option (Ref .scope))

mutual

/-- The names that a statement declares global, nested definitions aside. -/
def Statement.declaredGlobals : Statement → List String
  | .simple _ (.global names) => names
  | .ifElse _ _ body orelse | .whileLoop _ _ body orelse | .forLoop _ _ _ body orelse =>
    allDeclaredGlobals body ++ allDeclaredGlobals orelse
  | .simple _ _ | .function _ _ _ _ | .classBody _ _ _ _ => []

def allDeclaredGlobals : List Statement → List String
  | [] => []
  | s :: rest => s.declaredGlobals ++ allDeclaredGlobals rest

end

namespace Frame

def echoes : Frame → Bool
  | .module echo => echo
  | _ => false

/-- The scope that functions defined here look names up in after their own. -/
def closure : Frame → Option (Ref .scope)
  | .module _ => none
  | .function scope _ => some scope
  | .classBody _ around => around

/-- The scope that a name is bound in; none for the globals. -/
def home? : Frame → String → Option (Ref .scope)
  | .module _, _ => none
  | .function scope globals, name => if globals.contains name then none else some scope
  | .classBody scope _, _ => some scope

/-- What a name stands for: in the scopes, then among the globals, then built in. -/
def find? (frame : Frame) (m : Machine) (name : String) : Option Value :=
  ((frame.home? name).bind (m.heap.boundIn? · name)).or
    ((m.globals.get? name).or (m.builtins.get? name))

def lookup (frame : Frame) (name : String) : Eval Value := do
  match frame.find? (← get) name with
  | some v => return v
  | none => Eval.fail (.unbound name)

def assign (frame : Frame) (name : String) (v : Value) : Eval Unit :=
  match frame.home? name with
  | some scope => Eval.changeScope scope (·.set name v)
  | none => modify fun m => { m with globals := m.globals.set name v }

/-- Unbinds a name where it would be bound. -/
def delete (frame : Frame) (name : String) : Eval Unit := do
  match frame.home? name with
  | some scope =>
    if ((← Eval.ask (·.scope scope)).vars.get? name).isSome then
      Eval.changeScope scope (·.erase name)
    else Eval.fail (.unbound name)
  | none =>
    if ((← get).globals.get? name).isSome then
      modify fun m => { m with globals := m.globals.erase name }
    else Eval.fail (.unbound name)

end Frame

end Console
