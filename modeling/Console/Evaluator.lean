import Console.Call
import Console.Target

/-!
# The evaluator

Expressions have values, statements have effects, and calls run the bodies of functions. `steps`
bounds how deep an evaluation nests and how often a loop runs; an evaluation that runs out of it is
given up, and more steps never change the outcome of one that ends.
-/

namespace Console

namespace Simple

/-- What a value stands for that is raised. -/
def raised (h : Heap) : Value → Exception
  | .exception r => ⟨(h.exception r).kind, (h.exception r).message, none⟩
  | .exceptionType kind => ⟨kind, "", none⟩
  | v => (Fault.notAnException v.typeName).exception

/-- Shows a value that is not none, and remembers it. -/
def echo (caller : Caller) (v : Value) : Eval Unit := do
  if !v.isNone then
    let text ← Eval.repr caller v
    Eval.write (text ++ "\n")
    modify fun m => { m with builtins := m.builtins.set "_" v }

/-- The message of an assertion that failed. -/
def assertionMessage (eval : Expr → Eval Value) (caller : Caller) : Option Expr → Eval String
  | none => return ""
  | some e => do Eval.str caller (← eval e)

/-- Runs a statement that holds no statements. Future imports took effect when the program was
compiled. -/
def exec (eval : Expr → Eval Value) (caller : Caller) (frame : Frame) : Simple → Eval Flow
  | .expr e => do
    let v ← eval e
    if frame.echoes then echo caller v
    return .normal
  | .assign targets e => do
    let v ← eval e
    targets.forM fun t => Target.assign eval frame t v
    return .normal
  | .augment target op e => do
    Target.augment eval caller frame op target e
    return .normal
  | .pass | .global _ => return .normal
  | .break => return .break
  | .continue => return .continue
  | .return none => return .return .none
  | .return (some e) => do return .return (← eval e)
  | .raise none => Eval.fail .nothingToReraise
  | .raise (some e) => do
    let v ← eval e
    throw (.raised (← Eval.ask (raised · v)))
  | .assert test message => do
    if ← Eval.isTrue (← eval test) then return .normal
    Eval.fail (.assertion (← assertionMessage eval caller message))
  | .delete targets => do
    Target.deleteAll eval caller frame targets
    return .normal
  | .importModules names => Eval.fail (.noModule (names.headD ""))
  | .importNames module _ =>
    if module = "__future__" then return .normal else Eval.fail (.noModule module)

end Simple

namespace Evaluator

/-- The links of a chain of comparisons, up to the first that does not hold. -/
def chain (eval : Expr → Eval Value) (left : Value) : List (Comparison × Expr) → Eval Bool
  | [] => return true
  | (op, e) :: rest => do
    let right ← eval e
    if ← Eval.compare op left right then chain eval right rest else return false

/-- Whether a connective leaves its right side unevaluated. -/
def settles (op : Connective) (truth : Bool) : Bool :=
  match op with
  | .and => !truth
  | .or => truth

/-- The classes that the bases of a class evaluate to. -/
def bases (eval : Expr → Eval Value) (es : List Expr) : Eval (List (Ref .cls)) :=
  es.mapM fun e => do
    match ← eval e with
    | .cls r => return r
    | v => Eval.fail (.badBase v.typeName)

/-- The values of the defaults, one for each parameter. -/
abbrev Defaults (ps : List Parameter) := {values : List (Option Value) // values.length = ps.length}

def defaults (eval : Expr → Eval Value) : (ps : List Parameter) → Eval (Defaults ps)
  | [] => return ⟨[], rfl⟩
  | p :: ps => do
    let first ← p.default.mapM eval
    let others ← defaults eval ps
    return ⟨first :: others.1, congrArg Nat.succ others.2⟩

/-- Makes a function; its defaults are evaluated where it is defined. -/
def makeFunction (eval : Expr → Eval Value) (frame : Frame) (name : String) (ps : List Parameter)
    (body : List Statement) : Eval Value := do
  let defaults ← defaults eval ps
  Eval.newFunction ⟨name, ps, body, defaults.1, frame.closure, defaults.2⟩

/-- Puts an entry into a dict display. -/
def entry (eval : Expr → Eval Value) (done : Array (Value × Value)) (e : Expr × Expr) :
    Eval (Array (Value × Value)) := do
  let key ← eval e.1
  let v ← eval e.2
  Eval.checkHashable key
  Eval.insertInto done key v

/-- Makes a class; `run` runs its body. -/
def makeClass (eval : Expr → Eval Value) (run : Frame → List Statement → Eval Flow)
    (frame : Frame) (name : String) (es : List Expr) (body : List Statement) : Eval Value := do
  let bases ← bases eval es
  let scope ← Eval.newScope [] frame.closure
  discard <| run (.classBody scope frame.closure) body
  Eval.newClass ⟨name, bases, (← Eval.ask (·.scope scope)).vars⟩

mutual

def eval : (steps : Nat) → Frame → Expr → Eval Value
  | 0, _, _ => Eval.exhausted
  | steps + 1, frame, e =>
    match e with
    | .name id => frame.lookup id
    | .int n => return .int n
    | .float x => return .float x
    | .str s => return .str s
    | .bool b => return .bool b
    | .none => return .none
    | .list items => do Eval.newList (← items.mapM (eval steps frame)).toArray
    | .tuple items => do Eval.newTuple (← items.mapM (eval steps frame)).toArray
    | .dict entries => do Eval.newDict (← entries.foldlM (entry (eval steps frame)) #[])
    | .unary op operand => do Eval.unary op (← eval steps frame operand)
    | .binary op left right => do
      let left ← eval steps frame left
      let right ← eval steps frame right
      Eval.binary ⟨call steps, steps⟩ op left right
    | .connect op left right => do
      let left ← eval steps frame left
      if settles op (← Eval.isTrue left) then return left else eval steps frame right
    | .compare left links => do
      return .bool (← chain (eval steps frame) (← eval steps frame left) links)
    | .choose test body orelse => do
      if ← Eval.isTrue (← eval steps frame test) then eval steps frame body
      else eval steps frame orelse
    | .call callee args keywords => do
      let callee ← eval steps frame callee
      let positional ← args.mapM (eval steps frame)
      let named ← keywords.mapM fun k => do return (k.1, ← eval steps frame k.2)
      call steps callee ⟨positional, named⟩
    | .attribute object name => do Eval.getAttr (← eval steps frame object) name
    | .subscript object index => do
      let object ← eval steps frame object
      Eval.getItem ⟨call steps, steps⟩ object (← eval steps frame index)

def call : (steps : Nat) → Value → Arguments → Eval Value
  | 0, _, _ => Eval.exhausted
  | steps + 1, callee, args =>
    match callee with
    | .function r => Call.function (fun frame => Flow.block (exec steps frame)) r args
    | .boundMethod receiver r =>
      Call.function (fun frame => Flow.block (exec steps frame)) r
        { args with positional := .instance receiver :: args.positional }
    | .builtin b => b.call ⟨call steps, steps⟩ args
    | .listMethod r m => m.call ⟨call steps, steps⟩ r args
    | .strMethod s m => m.call ⟨call steps, steps⟩ s args
    | .dictMethod r m => m.call ⟨call steps, steps⟩ r args
    | .cls r => Call.instantiate (call steps) r args
    | .exceptionType kind => Call.exception ⟨call steps, steps⟩ kind args
    | v => Eval.fail (.notCallable v.typeName)

def exec : (steps : Nat) → Frame → Statement → Eval Flow
  | 0, _, _ => Eval.exhausted
  | steps + 1, frame, s =>
    Eval.located s.line <|
      match s with
      | .simple _ action => action.exec (eval steps frame) ⟨call steps, steps⟩ frame
      | .ifElse _ test body orelse => do
        if ← Eval.isTrue (← eval steps frame test) then Flow.block (exec steps frame) body
        else Flow.block (exec steps frame) orelse
      | .whileLoop _ test body orelse =>
        Flow.whileLoop (do Eval.isTrue (← eval steps frame test))
          (Flow.block (exec steps frame) body) (Flow.block (exec steps frame) orelse) steps
      | .forLoop _ target iterable body orelse => do
        let values ← Eval.items (← eval steps frame iterable)
        Flow.forLoop (Target.assign (eval steps frame) frame target)
          (Flow.block (exec steps frame) body) (Flow.block (exec steps frame) orelse)
          values.toList
      | .function _ name parameters body => do
        frame.assign name (← makeFunction (eval steps frame) frame name parameters body)
        return .normal
      | .classBody _ name bases body => do
        frame.assign name (← makeClass (eval steps frame)
          (fun frame => Flow.block (exec steps frame)) frame name bases body)
        return .normal

end

/-- Runs top-level code; with `echo` the values of expression statements are shown. -/
def execModule (steps : Nat) (echo : Bool) (body : List Statement) : Eval Unit :=
  discard <| Flow.block (exec steps (.module echo)) body

end Evaluator

end Console
