import Console.Evaluator
import Console.Proofs.Evaluator.Builtins

/-!
# The evaluator in layers

What the evaluator does with one more step is put together from what it does without it. So whatever is
to hold of all evaluations is shown of one layer on top of another.
-/

namespace Console

/-- An evaluator: of expressions, of calls and of statements. -/
structure Layer where
  eval : Frame → Expr → Eval Value
  call : Value → Arguments → Eval Value
  exec : Frame → Statement → Eval Flow

namespace Layer

open Evaluator

/-- The evaluator with a number of steps. -/
def ofSteps (steps : Nat) : Layer :=
  ⟨Evaluator.eval steps, Evaluator.call steps, Evaluator.exec steps⟩

/-- Gives everything up. -/
def none : Layer :=
  ⟨fun _ _ => Eval.exhausted, fun _ _ => Eval.exhausted, fun _ _ => Eval.exhausted⟩

def block (l : Layer) (frame : Frame) (body : List Statement) : Eval Flow :=
  Flow.block (l.exec frame) body

/-- One more layer; `run` runs the bodies of functions and classes in it. -/
def next (below : Layer) (steps : Nat) (run : Frame → List Statement → Eval Flow) : Layer where
  eval frame e :=
    match e with
    | .name id => frame.lookup id
    | .int n => return .int n
    | .float x => return .float x
    | .str s => return .str s
    | .bool b => return .bool b
    | .none => return .none
    | .list items => do Eval.newList (← items.mapM (below.eval frame)).toArray
    | .tuple items => do Eval.newTuple (← items.mapM (below.eval frame)).toArray
    | .dict entries => do Eval.newDict (← entries.foldlM (entry (below.eval frame)) #[])
    | .unary op operand => do Eval.unary op (← below.eval frame operand)
    | .binary op left right => do
      let left ← below.eval frame left
      let right ← below.eval frame right
      Eval.binary ⟨below.call, steps⟩ op left right
    | .connect op left right => do
      let left ← below.eval frame left
      if settles op (← Eval.isTrue left) then return left else below.eval frame right
    | .compare left links => do
      return .bool (← chain (below.eval frame) (← below.eval frame left) links)
    | .choose test body orelse => do
      if ← Eval.isTrue (← below.eval frame test) then below.eval frame body
      else below.eval frame orelse
    | .call callee args keywords => do
      let callee ← below.eval frame callee
      let positional ← args.mapM (below.eval frame)
      let named ← keywords.mapM fun k => do return (k.1, ← below.eval frame k.2)
      below.call callee ⟨positional, named⟩
    | .attribute object name => do Eval.getAttr (← below.eval frame object) name
    | .subscript object index => do
      let object ← below.eval frame object
      Eval.getItem ⟨below.call, steps⟩ object (← below.eval frame index)
  call callee args :=
    match callee with
    | .function r => Call.function run r args
    | .boundMethod receiver r =>
      Call.function run r { args with positional := .instance receiver :: args.positional }
    | .builtin b => b.call ⟨below.call, steps⟩ args
    | .listMethod r m => m.call ⟨below.call, steps⟩ r args
    | .strMethod s m => m.call ⟨below.call, steps⟩ s args
    | .dictMethod r m => m.call ⟨below.call, steps⟩ r args
    | .cls r => Call.instantiate below.call r args
    | .exceptionType kind => Call.exception ⟨below.call, steps⟩ kind args
    | v => Eval.fail (.notCallable v.typeName)
  exec frame s :=
    Eval.located s.line <|
      match s with
      | .simple _ action => action.exec (below.eval frame) ⟨below.call, steps⟩ frame
      | .ifElse _ test body orelse => do
        if ← Eval.isTrue (← below.eval frame test) then below.block frame body
        else below.block frame orelse
      | .whileLoop _ test body orelse =>
        Flow.whileLoop (do Eval.isTrue (← below.eval frame test)) (below.block frame body)
          (below.block frame orelse) steps
      | .forLoop _ target iterable body orelse => do
        let values ← Eval.items (← below.eval frame iterable)
        Flow.forLoop (Target.assign (below.eval frame) frame target) (below.block frame body)
          (below.block frame orelse) values.toList
      | .function _ name parameters body => do
        frame.assign name (← makeFunction (below.eval frame) frame name parameters body)
        return .normal
      | .classBody _ name bases body => do
        frame.assign name (← makeClass (below.eval frame) run frame name bases body)
        return .normal

theorem ofSteps_zero : ofSteps 0 = none := rfl

/-- The evaluator is built of these layers. -/
theorem ofSteps_succ (steps : Nat) :
    ofSteps (steps + 1) = (ofSteps steps).next steps (ofSteps steps).block := by
  have evals : Evaluator.eval (steps + 1) = ((ofSteps steps).next steps (ofSteps steps).block).eval := by
    funext frame e
    cases e <;> rfl
  have calls : Evaluator.call (steps + 1) = ((ofSteps steps).next steps (ofSteps steps).block).call := by
    funext callee args
    cases callee <;> rfl
  have execs : Evaluator.exec (steps + 1) = ((ofSteps steps).next steps (ofSteps steps).block).exec := by
    funext frame s
    cases s <;> rfl
  rw [ofSteps, evals, calls, execs]

end Layer

namespace Eval

variable {I : Machine → Prop} {eval eval' : Expr → Eval Value} {caller caller' : Caller}
  {frame : Frame}

/-- What the statements of a frame are put together from agrees. -/
structure Parts (I : Machine → Prop) (frame : Frame) (eval eval' : Expr → Eval Value)
    (caller caller' : Caller) : Prop where
  stable : Stable I
  assign : ∀ name v, Agree I (frame.assign name v) (frame.assign name v)
  delete : ∀ name, Agree I (frame.delete name) (frame.delete name)
  remember : ∀ v, Agree I (modify fun m => { m with builtins := m.builtins.set "_" v } : Eval Unit)
    (modify fun m => { m with builtins := m.builtins.set "_" v })
  eval : ∀ e, Agree I (eval e) (eval' e)
  callers : Callers I caller caller'

@[simp] theorem Agree.lookup (frame : Frame) (name : String) :
    Agree I (frame.lookup name) (frame.lookup name) := by
  refine Agree.get.bind fun m => ?_
  cases frame.find? m name <;> simp

namespace Parts

mutual

theorem assignTo (parts : Parts I frame eval eval' caller caller') : ∀ (target : Expr) (v : Value),
    Agree I (Target.assign eval frame target v) (Target.assign eval' frame target v)
  | .name id, v => parts.assign id v
  | .attribute object name, v =>
    (parts.eval object).bind fun object => parts.stable.setAttr object name v
  | .subscript object index, v => (parts.eval object).bind fun object =>
    (parts.eval index).bind fun index => parts.stable.setItem object index v
  | .tuple targets, v | .list targets, v =>
    (Agree.items v).bind fun values => (Agree.ofFault _).bind fun _ =>
      parts.assignAll targets values.toList
  | .int _, _ | .float _, _ | .str _, _ | .bool _, _ | .none, _ | .dict _, _ | .unary _ _, _
  | .binary _ _ _, _ | .connect _ _ _, _ | .compare _ _, _ | .choose _ _ _, _ | .call _ _ _, _ =>
    Agree.fail _

theorem assignAll (parts : Parts I frame eval eval' caller caller') :
    ∀ (targets : List Expr) (vs : List Value),
      Agree I (Target.assignAll eval frame targets vs) (Target.assignAll eval' frame targets vs)
  | [], _ => Agree.pure _
  | _ :: _, [] => Agree.pure _
  | t :: ts, v :: vs => (parts.assignTo t v).bind fun _ => parts.assignAll ts vs

end

mutual

theorem deleteFrom (parts : Parts I frame eval eval' caller caller') : ∀ target : Expr,
    Agree I (Target.delete eval caller frame target) (Target.delete eval' caller' frame target)
  | .name id => parts.delete id
  | .attribute object name =>
    (parts.eval object).bind fun object => parts.stable.deleteAttr object name
  | .subscript object index => (parts.eval object).bind fun object =>
    (parts.eval index).bind fun index => parts.callers.deleteItem parts.stable object index
  | .tuple targets | .list targets => parts.deleteAll targets
  | .int _ | .float _ | .str _ | .bool _ | .none | .dict _ | .unary _ _
  | .binary _ _ _ | .connect _ _ _ | .compare _ _ | .choose _ _ _ | .call _ _ _ => Agree.fail _

theorem deleteAll (parts : Parts I frame eval eval' caller caller') : ∀ targets : List Expr,
    Agree I (Target.deleteAll eval caller frame targets)
      (Target.deleteAll eval' caller' frame targets)
  | [] => Agree.pure _
  | t :: ts => (parts.deleteFrom t).bind fun _ => parts.deleteAll ts

end

variable (parts : Parts I frame eval eval' caller caller')
include parts

theorem augment (op : BinaryOp) (target operand : Expr) :
    Agree I (Target.augment eval caller frame op target operand)
      (Target.augment eval' caller' frame op target operand) := by
  have result (current : Value) : Agree I
      (do Eval.augment caller op current (← eval operand))
      (do Eval.augment caller' op current (← eval' operand)) :=
    (parts.eval operand).bind fun v => parts.callers.augment parts.stable op current v
  unfold Target.augment
  split
  · exact (Agree.lookup _ _).bind fun current => (result current).bind fun v => parts.assign _ v
  · exact (parts.eval _).bind fun object => (parts.stable.getAttr object _).bind fun current =>
      (result current).bind fun v => parts.stable.setAttr object _ v
  · exact (parts.eval _).bind fun object => (parts.eval _).bind fun index =>
      (parts.callers.getItem parts.stable object index).bind fun current =>
        (result current).bind fun v => parts.stable.setItem object index v
  · exact Agree.fail _

theorem echo (v : Value) : Agree I (Simple.echo caller v) (Simple.echo caller' v) := by
  unfold Simple.echo
  split
  · exact (parts.callers.repr parts.stable v).bind fun text =>
      (parts.stable.write _).bind fun _ => parts.remember v
  · exact Agree.pure _

theorem assertionMessage (message : Option Expr) :
    Agree I (Simple.assertionMessage eval caller message)
      (Simple.assertionMessage eval' caller' message) := by
  cases message with
  | none => exact Agree.pure _
  | some e => exact (parts.eval e).bind fun v => parts.callers.str parts.stable v

/-- A simple statement ends as its kind allows: only a jump jumps, and only a return returns. -/
theorem simple (s : Simple) (Q : Flow → Prop) (normal : Q .normal)
    (breaks : s = .break → Q .break) (continues : s = .continue → Q .continue)
    (returns : ∀ e, s = .return e → ∀ v, Q (.return v)) :
    AgreeWith I Q (s.exec eval caller frame) (s.exec eval' caller' frame) := by
  cases s with
  | expr e =>
    refine AgreeWith.bind (parts.eval e) fun v _ => ?_
    dsimp only
    split
    · exact AgreeWith.bind (parts.echo v) fun _ _ => .pure normal
    · exact .pure normal
  | assign targets e =>
    exact AgreeWith.bind (parts.eval e) fun v _ =>
      AgreeWith.bind (Agree.forM (fun t => parts.assignTo t v) targets) fun _ _ => .pure normal
  | augment target op e =>
    exact AgreeWith.bind (parts.augment op target e) fun _ _ => .pure normal
  | pass => exact .pure normal
  | «global» names => exact .pure normal
  | «break» => exact .pure (breaks rfl)
  | «continue» => exact .pure (continues rfl)
  | «return» e =>
    cases e with
    | none => exact .pure (returns _ rfl _)
    | some e => exact AgreeWith.bind (parts.eval e) fun v _ => .pure (returns _ rfl v)
  | raise e =>
    cases e with
    | none => exact .throw _
    | some e =>
      exact AgreeWith.bind (parts.eval e) fun v _ =>
        AgreeWith.bind (Agree.ask _) fun _ _ => .throw _
  | assert test message =>
    refine AgreeWith.bind (parts.eval test) fun v _ => AgreeWith.bind (Agree.isTrue v) fun held _ => ?_
    split
    · exact .pure normal
    · exact AgreeWith.bind (parts.assertionMessage message) fun _ _ => .throw _
  | delete targets => exact AgreeWith.bind (parts.deleteAll targets) fun _ _ => .pure normal
  | importModules names => exact .throw _
  | importNames module names =>
    by_cases future : module = "__future__"
    · simp only [Simple.exec, future, if_true]
      exact .pure normal
    · simp only [Simple.exec, future, if_false]
      exact .throw _

end Parts

section

variable (evals : ∀ e, Agree I (eval e) (eval' e))
include evals

theorem Agree.chain (links : List (Comparison × Expr)) (left : Value) :
    Agree I (Evaluator.chain eval left links) (Evaluator.chain eval' left links) := by
  induction links generalizing left with
  | nil => exact Agree.pure true
  | cons link rest ih =>
    obtain ⟨op, e⟩ := link
    refine (evals e).bind fun right => (Agree.compare op left right).bind fun holds => ?_
    split
    · exact ih right
    · exact Agree.pure false

theorem Agree.bases (es : List Expr) :
    Agree I (Evaluator.bases eval es) (Evaluator.bases eval' es) := by
  refine Agree.mapM (fun e => (evals e).bind fun v => ?_) es
  split
  · exact Agree.pure _
  · exact Agree.fail _

theorem Agree.defaults (ps : List Parameter) :
    Agree I (Evaluator.defaults eval ps) (Evaluator.defaults eval' ps) := by
  induction ps with
  | nil => exact Agree.pure _
  | cons p ps ih =>
    have first : Agree I (p.default.mapM eval) (p.default.mapM eval') := by
      cases p.default with
      | none => exact Agree.pure none
      | some e =>
        change Agree I (some <$> eval e) (some <$> eval' e)
        rw [map_eq_pure_bind, map_eq_pure_bind]
        exact (evals e).bind fun v => Agree.pure (some v)
    exact first.bind fun d => ih.bind fun others => Agree.pure _

theorem Agree.makeFunction (frame : Frame) (name : String) (ps : List Parameter) (body : List Statement)
    (made : ∀ f : FunctionObject, f.body = body → Agree I (Eval.newFunction f) (Eval.newFunction f)) :
    Agree I (Evaluator.makeFunction eval frame name ps body)
      (Evaluator.makeFunction eval' frame name ps body) :=
  (Agree.defaults evals ps).bind fun _ => made _ rfl

theorem Agree.entry (done : Array (Value × Value)) (e : Expr × Expr) :
    Agree I (Evaluator.entry eval done e) (Evaluator.entry eval' done e) :=
  (evals e.1).bind fun key => (evals e.2).bind fun v => (Agree.checkHashable key).bind fun _ =>
    Agree.insertInto done key v

end

end Eval

namespace Layer

open Eval

/-- The expressions and the calls of two layers agree. -/
structure Alike (I : Machine → Prop) (l l' : Layer) : Prop where
  eval : ∀ frame e, Agree I (l.eval frame e) (l'.eval frame e)
  call : ∀ callee args, Agree I (l.call callee args) (l'.call callee args)

namespace Alike

variable {I : Machine → Prop} {below below' : Layer} {run run' : Frame → List Statement → Eval Flow}

theorem none : Layer.none.Alike I Layer.none :=
  ⟨fun _ _ => Agree.exhausted, fun _ _ => Agree.exhausted⟩

theorem callers (alike : below.Alike I below') (steps : Nat) :
    Callers I ⟨below.call, steps⟩ ⟨below'.call, steps⟩ :=
  ⟨alike.call, rfl⟩

theorem next_eval (stable : Stable I) (alike : below.Alike I below') (steps : Nat) (frame : Frame)
    (e : Expr) :
    Agree I ((below.next steps run).eval frame e) ((below'.next steps run').eval frame e) := by
  have evals := alike.eval frame
  cases e with
  | name id => exact Agree.lookup frame id
  | int _ | float _ | str _ | bool _ | none => exact Agree.pure _
  | list items =>
    exact (Agree.mapM evals items).bind fun vs => stable.newList _
  | tuple items =>
    exact (Agree.mapM evals items).bind fun vs => stable.newTuple _
  | dict entries =>
    exact (Agree.foldlM (Agree.entry evals) _ entries).bind fun vs => stable.newDict _
  | unary op operand => exact (evals operand).bind fun v => Agree.unary op v
  | binary op left right =>
    exact (evals left).bind fun a => (evals right).bind fun b =>
      (alike.callers steps).binary stable op a b
  | connect op left right =>
    refine (evals left).bind fun a => (Agree.isTrue a).bind fun truth => ?_
    split
    · exact Agree.pure _
    · exact evals right
  | compare left links =>
    exact (evals left).bind fun a => (Agree.chain evals links a).bind fun _ => Agree.pure _
  | choose test body orelse =>
    refine (evals test).bind fun v => (Agree.isTrue v).bind fun truth => ?_
    split
    · exact evals body
    · exact evals orelse
  | call callee args keywords =>
    exact (evals callee).bind fun f => (Agree.mapM evals args).bind fun positional =>
      (Agree.mapM (fun k => (evals k.2).bind fun _ => Agree.pure _) keywords).bind fun named =>
        alike.call f ⟨positional, named⟩
  | «attribute» object name => exact (evals object).bind fun v => stable.getAttr v name
  | subscript object index =>
    exact (evals object).bind fun v => (evals index).bind fun i =>
      (alike.callers steps).getItem stable v i

/-- Calls agree if the functions that they run do. -/
theorem next_call (stable : Stable I) (alike : below.Alike I below') (steps : Nat)
    (functions : ∀ r args, Agree I (Call.function run r args) (Call.function run' r args))
    (callee : Value) (args : Arguments) :
    Agree I ((below.next steps run).call callee args) ((below'.next steps run').call callee args) := by
  have callers := alike.callers steps
  cases callee with
  | function r => exact functions r args
  | boundMethod receiver r => exact functions r _
  | builtin b => exact callers.builtin stable b args
  | listMethod r m => exact callers.listMethod stable r m args
  | strMethod s m => exact callers.strMethod stable s m args
  | dictMethod r m => exact callers.dictMethod stable r m args
  | cls r => exact stable.instantiate alike.call r args
  | exceptionType kind => exact callers.exception stable kind args
  | none | bool _ | int _ | float _ | str _ | list _ | tuple _ | dict _ | «instance» _
  | exception _ => exact Agree.fail _

theorem next (stable : Stable I) (alike : below.Alike I below') (steps : Nat)
    (functions : ∀ r args, Agree I (Call.function run r args) (Call.function run' r args)) :
    (below.next steps run).Alike I (below'.next steps run') :=
  ⟨alike.next_eval stable steps, alike.next_call stable steps functions⟩

end Alike

end Layer

end Console
