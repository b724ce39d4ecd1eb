import Console.Attributes
import Console.Frame
import Console.Operators

/-!
# Targets

What stands left of an equals sign, behind `for` and behind `del`: names, attributes, subscripts, and
sequences of targets that take a value apart. `eval` evaluates the expressions inside a target.
-/

namespace Console

namespace Target

/-- Whether as many values came as there are targets. -/
def checkCount (expected got : Nat) : Except Fault Unit :=
  if expected < got then .error (.tooManyValues expected)
  else if got < expected then .error (.tooFewValues expected got)
  else .ok ()

mutual

def assign (eval : Expr → Eval Value) (frame : Frame) : Expr → Value → Eval Unit
  | .name id, v => frame.assign id v
  | .attribute object name, v => do Eval.setAttr (← eval object) name v
  | .subscript object index, v => do
    let object ← eval object
    Eval.setItem object (← eval index) v
  | .tuple targets, v | .list targets, v => do
    let values ← Eval.items v
    Eval.ofFault (checkCount targets.length values.size)
    assignAll eval frame targets values.toList
  | _, _ => Eval.fail .cannotAssign

def assignAll (eval : Expr → Eval Value) (frame : Frame) : List Expr → List Value → Eval Unit
  | t :: ts, v :: vs => do
    assign eval frame t v
    assignAll eval frame ts vs
  | _, _ => return

end

mutual

def delete (eval : Expr → Eval Value) (caller : Caller) (frame : Frame) : Expr → Eval Unit
  | .name id => frame.delete id
  | .attribute object name => do Eval.deleteAttr (← eval object) name
  | .subscript object index => do
    let object ← eval object
    Eval.deleteItem caller object (← eval index)
  | .tuple targets | .list targets => deleteAll eval caller frame targets
  | _ => Eval.fail .cannotDelete

def deleteAll (eval : Expr → Eval Value) (caller : Caller) (frame : Frame) :
    List Expr → Eval Unit
  | [] => return
  | t :: ts => do
    delete eval caller frame t
    deleteAll eval caller frame ts

end

/-- Applies an operator to what a target holds and puts the result there. The parts of the target
are evaluated once, and what it holds is read before the operand is evaluated. -/
def augment (eval : Expr → Eval Value) (caller : Caller) (frame : Frame) (op : BinaryOp)
    (target operand : Expr) : Eval Unit := do
  let result (current : Value) : Eval Value := do
    Eval.augment caller op current (← eval operand)
  match target with
  | .name id => frame.assign id (← result (← frame.lookup id))
  | .attribute object name =>
    let object ← eval object
    Eval.setAttr object name (← result (← Eval.getAttr object name))
  | .subscript object index =>
    let object ← eval object
    let index ← eval index
    Eval.setItem object index (← result (← Eval.getItem caller object index))
  | _ => Eval.fail .cannotAugment

end Target

end Console
