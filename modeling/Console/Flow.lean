import Console.Machine

/-!
# The flow of control

How a statement ends, and how blocks and loops run when it is known how their parts do.
-/

namespace Console

inductive Flow
  | normal
  | break
  | continue
  | return (v : Value)

namespace Flow

/-- Runs the parts of a block up to the first that does not end normally. -/
def block {α : Type} (exec : α → Eval Flow) : List α → Eval Flow
  | [] => return .normal
  | s :: rest => do
    match ← exec s with
    | .normal => block exec rest
    | other => return other

/-- A loop that runs while a test holds; `orelse` runs when the test has failed, not after a
break. -/
def whileLoop (test : Eval Bool) (body orelse : Eval Flow) : (steps : Nat) → Eval Flow
  | 0 => Eval.exhausted
  | steps + 1 => do
    if ← test then
      match ← body with
      | .break => return .normal
      | .return v => return .return v
      | .normal | .continue => whileLoop test body orelse steps
    else orelse

/-- A loop that runs once for each value, `orelse` behind the last unless there was a break. -/
def forLoop (assign : Value → Eval Unit) (body orelse : Eval Flow) : List Value → Eval Flow
  | [] => orelse
  | v :: rest => do
    assign v
    match ← body with
    | .break => return .normal
    | .return v => return .return v
    | .normal | .continue => forLoop assign body orelse rest

end Flow

end Console
