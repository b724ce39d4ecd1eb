import Console.Proofs.Evaluator.Statements
import Console.Proofs.Tree.Recovery
import Console.Proofs.Tree.Shape

/-!
# Targets at run time

Programs that compile have no targets but those that can be assigned to, changed or deleted. So an
evaluator that leaves all others to a fallback, instead of failing on them, never has any to leave.
-/

namespace Console

open Eval

namespace Target

variable (fallback : Fault → Eval Unit) (eval : Expr → Eval Value) (caller : Caller) (frame : Frame)

mutual

/-- Assigns to a target, or leaves it to the fallback. -/
def assignOr : Expr → Value → Eval Unit
  | .name id, v => frame.assign id v
  | .attribute object name, v => do Eval.setAttr (← eval object) name v
  | .subscript object index, v => do
    let object ← eval object
    Eval.setItem object (← eval index) v
  | .tuple targets, v | .list targets, v => do
    let values ← Eval.items v
    Eval.ofFault (checkCount targets.length values.size)
    assignAllOr targets values.toList
  | _, _ => fallback .cannotAssign

def assignAllOr : List Expr → List Value → Eval Unit
  | t :: ts, v :: vs => do
    assignOr t v
    assignAllOr ts vs
  | _, _ => return

end

mutual

/-- Deletes a target, or leaves it to the fallback. -/
def deleteOr : Expr → Eval Unit
  | .name id => frame.delete id
  | .attribute object name => do Eval.deleteAttr (← eval object) name
  | .subscript object index => do
    let object ← eval object
    Eval.deleteItem caller object (← eval index)
  | .tuple targets | .list targets => deleteAllOr targets
  | _ => fallback .cannotDelete

def deleteAllOr : List Expr → Eval Unit
  | [] => return
  | t :: ts => do
    deleteOr t
    deleteAllOr ts

end

/-- Changes what a target holds, or leaves it to the fallback. -/
def augmentOr (op : BinaryOp) (target operand : Expr) : Eval Unit :=
  match target with
  | .name _ | .attribute _ _ | .subscript _ _ => augment eval caller frame op target operand
  | _ => fallback .cannotAugment

end Target

/-- Runs a simple statement; targets that it can not deal with are left to the fallback. -/
def Simple.execOr (fallback : Fault → Eval Unit) (eval : Expr → Eval Value) (caller : Caller)
    (frame : Frame) : Simple → Eval Flow
  | .assign targets e => do
    let v ← eval e
    targets.forM fun t => Target.assignOr fallback eval frame t v
    return .normal
  | .augment target op e => do
    Target.augmentOr fallback eval caller frame op target e
    return .normal
  | .delete targets => do
    Target.deleteAllOr fallback eval caller frame targets
    return .normal
  | s => s.exec eval caller frame

namespace Layer

/-- One more layer, which leaves the targets to the fallback that it can not deal with. -/
def nextOr (fallback : Fault → Eval Unit) (below : Layer) (steps : Nat) : Layer :=
  { below.next steps below.block with
    exec := fun frame s =>
      match s with
      | .simple line action =>
        Eval.located line (action.execOr fallback (below.eval frame) ⟨below.call, steps⟩ frame)
      | .forLoop line target iterable body orelse =>
        Eval.located line do
          let values ← Eval.items (← below.eval frame iterable)
          Flow.forLoop (Target.assignOr fallback (below.eval frame) frame target)
            (below.block frame body) (below.block frame orelse) values.toList
      | s => (below.next steps below.block).exec frame s }

/-- The evaluator with a number of steps and with a fallback. -/
def withFallback (fallback : Fault → Eval Unit) : Nat → Layer
  | 0 => none
  | steps + 1 => (withFallback fallback steps).nextOr fallback steps

end Layer

namespace Target

variable (eval : Expr → Eval Value) (caller : Caller) (frame : Frame)

mutual

theorem assignOr_fail : ∀ (target : Expr) (v : Value),
    assignOr Eval.fail eval frame target v = assign eval frame target v
  | .tuple targets, v | .list targets, v => by
    unfold assignOr assign
    simp only [assignAllOr_fail targets]
  | .name _, _ | .attribute _ _, _ | .subscript _ _, _ | .int _, _ | .float _, _ | .str _, _
  | .bool _, _ | .none, _ | .dict _, _ | .unary _ _, _ | .binary _ _ _, _ | .connect _ _ _, _
  | .compare _ _, _ | .choose _ _ _, _ | .call _ _ _, _ => rfl

theorem assignAllOr_fail : ∀ (targets : List Expr) (vs : List Value),
    assignAllOr Eval.fail eval frame targets vs = assignAll eval frame targets vs
  | [], _ | _ :: _, [] => rfl
  | t :: ts, v :: vs => by
    unfold assignAllOr assignAll
    rw [assignOr_fail t v, assignAllOr_fail ts vs]

end

mutual

theorem deleteOr_fail : ∀ target : Expr,
    deleteOr Eval.fail eval caller frame target = delete eval caller frame target
  | .tuple targets | .list targets => by
    unfold deleteOr delete
    exact deleteAllOr_fail targets
  | .name _ | .attribute _ _ | .subscript _ _ | .int _ | .float _ | .str _ | .bool _ | .none
  | .dict _ | .unary _ _ | .binary _ _ _ | .connect _ _ _ | .compare _ _ | .choose _ _ _
  | .call _ _ _ => rfl

theorem deleteAllOr_fail : ∀ targets : List Expr,
    deleteAllOr Eval.fail eval caller frame targets = deleteAll eval caller frame targets
  | [] => rfl
  | t :: ts => by
    unfold deleteAllOr deleteAll
    rw [deleteOr_fail t, deleteAllOr_fail ts]

end

theorem augmentOr_fail (op : BinaryOp) (target operand : Expr) :
    augmentOr Eval.fail eval caller frame op target operand =
      augment eval caller frame op target operand := by
  cases target <;> rfl

end Target

theorem Simple.execOr_fail (eval : Expr → Eval Value) (caller : Caller) (frame : Frame) (s : Simple) :
    s.execOr Eval.fail eval caller frame = s.exec eval caller frame := by
  cases s with
  | assign targets e => simp only [execOr, exec, Target.assignOr_fail]
  | augment target op e => simp only [execOr, exec, Target.augmentOr_fail]
  | delete targets => simp only [execOr, exec, Target.deleteAllOr_fail]
  | _ => rfl

/-- With a fallback that fails the evaluator is the evaluator. -/
theorem Layer.withFallback_fail (steps : Nat) : withFallback Eval.fail steps = ofSteps steps := by
  induction steps with
  | zero => rfl
  | succ steps ih =>
    rw [ofSteps_succ, withFallback, ih]
    have execs : ((ofSteps steps).nextOr Eval.fail steps).exec =
        ((ofSteps steps).next steps (ofSteps steps).block).exec := by
      funext frame s
      have assigns (target : Expr) : Target.assignOr Eval.fail ((ofSteps steps).eval frame) frame target =
          Target.assign ((ofSteps steps).eval frame) frame target :=
        funext (Target.assignOr_fail _ _ target)
      cases s with
      | simple line action =>
        unfold nextOr next
        dsimp only
        rw [Simple.execOr_fail]
        rfl
      | forLoop line target iterable body orelse =>
        unfold nextOr next
        dsimp only
        rw [assigns]
        rfl
      | _ => rfl
    exact congrArg (Layer.mk _ _) execs

namespace Eval.Parts

variable {I : Machine → Prop} {frame : Frame} {eval eval' : Expr → Eval Value}
  {caller caller' : Caller}

mutual

theorem assignOr (parts : Parts I frame eval eval' caller caller') (fallback : Fault → Eval Unit) :
    ∀ target : Expr, target.isAssignable = true → ∀ v : Value,
      Agree I (Target.assign eval frame target v) (Target.assignOr fallback eval' frame target v)
  | .name id, _, v => parts.assignTo (.name id) v
  | .attribute object name, _, v => parts.assignTo (.attribute object name) v
  | .subscript object index, _, v => parts.assignTo (.subscript object index) v
  | .tuple targets, assignable, v | .list targets, assignable, v =>
    (Agree.items v).bind fun values => (Agree.ofFault _).bind fun _ =>
      parts.assignAllOr fallback targets assignable values.toList

theorem assignAllOr (parts : Parts I frame eval eval' caller caller') (fallback : Fault → Eval Unit) :
    ∀ targets : List Expr, Expr.allAssignable targets = true → ∀ vs : List Value,
      Agree I (Target.assignAll eval frame targets vs)
        (Target.assignAllOr fallback eval' frame targets vs)
  | [], _, _ => Agree.pure _
  | _ :: _, _, [] => Agree.pure _
  | t :: ts, assignable, v :: vs => by
    obtain ⟨first, others⟩ := Bool.and_eq_true_iff.1 assignable
    exact (parts.assignOr fallback t first v).bind fun _ => parts.assignAllOr fallback ts others vs

end

variable (parts : Parts I frame eval eval' caller caller') (fallback : Fault → Eval Unit)
include parts

theorem deleteOr {target : Expr} (place : target.isPlace = true) :
    Agree I (Target.delete eval caller frame target)
      (Target.deleteOr fallback eval' caller' frame target) := by
  have same := parts.deleteFrom target
  cases target with
  | name | «attribute» | subscript => exact same
  | _ => cases place

theorem deleteAllOr {targets : List Expr} (places : ∀ t ∈ targets, t.isPlace = true) :
    Agree I (Target.deleteAll eval caller frame targets)
      (Target.deleteAllOr fallback eval' caller' frame targets) := by
  induction targets with
  | nil => exact Agree.pure _
  | cons t ts ih =>
    obtain ⟨first, others⟩ := List.forall_mem_cons.1 places
    exact (parts.deleteOr fallback first).bind fun _ => ih others

theorem augmentOr (op : BinaryOp) {target : Expr} (place : target.isPlace = true) (operand : Expr) :
    Agree I (Target.augment eval caller frame op target operand)
      (Target.augmentOr fallback eval' caller' frame op target operand) := by
  have same := parts.augment op target operand
  cases target with
  | name | «attribute» | subscript => exact same
  | _ => cases place

/-- A simple statement that is well formed has nothing to leave to the fallback. -/
theorem simpleOr {inLoop inFunction : Bool} {s : Simple}
    (formed : s.wellFormed inLoop inFunction = true) :
    Agree I (s.exec eval caller frame) (s.execOr fallback eval' caller' frame) := by
  have same : Agree I (s.exec eval caller frame) (s.exec eval' caller' frame) :=
    parts.simple s _ trivial (fun _ => trivial) (fun _ => trivial) fun _ _ _ => trivial
  cases s with
  | assign targets e =>
    simp only [Simple.wellFormed, Bool.and_eq_true, List.all_eq_true] at formed
    have each (v : Value) (ts : List Expr) (assignable : ∀ t ∈ ts, t.isAssignable = true) :
        Agree I (ts.forM fun t => Target.assign eval frame t v)
          (ts.forM fun t => Target.assignOr fallback eval' frame t v) := by
      induction ts with
      | nil => exact Agree.pure _
      | cons t ts ih =>
        obtain ⟨first, others⟩ := List.forall_mem_cons.1 assignable
        exact (parts.assignOr fallback t first v).bind fun _ => ih others
    exact (parts.eval e).bind fun v => (each v targets fun t inside => (formed.1.2 t inside).2).bind
      fun _ => Agree.pure _
  | augment target op e =>
    simp only [Simple.wellFormed, Bool.and_eq_true] at formed
    exact (parts.augmentOr fallback op formed.1.2 e).bind fun _ => Agree.pure _
  | delete targets =>
    simp only [Simple.wellFormed, Bool.and_eq_true, List.all_eq_true] at formed
    exact (parts.deleteAllOr fallback fun t inside => (formed.2 t inside).2).bind fun _ =>
      Agree.pure _
  | _ => exact same

end Eval.Parts

/-- The bodies of all functions are well formed. -/
def Machine.WellFormed (m : Machine) : Prop :=
  ∀ f ∈ m.heap.functions, Statement.allWellFormed false true f.body = true

namespace Machine.WellFormed

/-- Only the functions matter. -/
theorem coarse : Coarse WellFormed := by
  intro m m' functions _ formed
  unfold WellFormed
  rw [functions]
  exact formed

theorem function {m : Machine} (formed : m.WellFormed) (r : Ref .func) :
    Statement.allWellFormed false true (m.heap.function r).body = true := by
  unfold Heap.function
  cases found : m.heap.functions[r.index]? with
  | none => rfl
  | some f => exact formed f (Array.mem_of_getElem? found)

theorem newFunction {f : FunctionObject} (formed : Statement.allWellFormed false true f.body = true) :
    Agree WellFormed (Eval.newFunction f) (Eval.newFunction f) := by
  refine (Agree.ask _).bind fun _ => Agree.bind (.modify fun m all g inside => ?_) fun _ => Agree.pure _
  rcases Array.mem_push.1 inside with old | rfl
  · exact all g old
  · exact formed

end Machine.WellFormed

/-- The parts of a well-formed statement are well formed where they stand. -/
theorem Statement.wellFormed_inner {inLoop inFunction : Bool} {s part : Statement}
    (formed : s.wellFormed inLoop inFunction = true) (inside : part ∈ s.inner) :
    ∃ within, part.wellFormed within inFunction = true := by
  cases s with
  | simple | function | classBody => cases inside
  | ifElse line test body orelse =>
    simp only [wellFormed, Bool.and_eq_true] at formed
    rcases List.mem_append.1 inside with inside | inside
    · exact ⟨_, Parse.wellFormed_of_mem formed.1.2 inside⟩
    · exact ⟨_, Parse.wellFormed_of_mem formed.2 inside⟩
  | whileLoop line test body orelse =>
    simp only [wellFormed, Bool.and_eq_true] at formed
    rcases List.mem_append.1 inside with inside | inside
    · exact ⟨_, Parse.wellFormed_of_mem formed.1.2 inside⟩
    · exact ⟨_, Parse.wellFormed_of_mem formed.2 inside⟩
  | forLoop line target iterable body orelse =>
    simp only [wellFormed, Bool.and_eq_true] at formed
    rcases List.mem_append.1 inside with inside | inside
    · exact ⟨_, Parse.wellFormed_of_mem formed.1.2 inside⟩
    · exact ⟨_, Parse.wellFormed_of_mem formed.2 inside⟩

namespace Layer

/-- The layers agree on what is well formed, on machines whose functions are. -/
structure Shaped (l l' : Layer) : Prop extends l.Alike Machine.WellFormed l' where
  exec : ∀ frame {inLoop inFunction s}, s.wellFormed inLoop inFunction = true →
    Agree Machine.WellFormed (l.exec frame s) (l'.exec frame s)

namespace Shaped

variable {l l' : Layer}

theorem none : Layer.none.Shaped Layer.none :=
  ⟨.none, fun _ _ _ _ _ => Agree.exhausted⟩

variable (shaped : l.Shaped l')
include shaped

theorem block (frame : Frame) {inLoop inFunction : Bool} {body : List Statement}
    (formed : Statement.allWellFormed inLoop inFunction body = true) :
    Agree Machine.WellFormed (l.block frame body) (l'.block frame body) :=
  agree_block (fun _ => trivial) fun _ inside =>
    shaped.exec frame (Parse.wellFormed_of_mem formed inside)

theorem function (r : Ref .func) (args : Arguments) :
    Agree Machine.WellFormed (Call.function l.block r args) (Call.function l'.block r args) :=
  Machine.WellFormed.coarse.function (P := fun f => Statement.allWellFormed false true f.body = true)
    (fun _ formed r => formed.function r) (fun _ formed _ _ => shaped.block _ formed) r args

theorem steady (steps : Nat) (frame : Frame) {inLoop inFunction : Bool} {s : Statement}
    (formed : s.wellFormed inLoop inFunction = true) :
    Steady Machine.WellFormed frame l l' steps l.block l'.block s where
  toParts := Machine.WellFormed.coarse.parts frame shaped.toAlike steps
  inner _ inside := by
    obtain ⟨_, formed⟩ := Statement.wellFormed_inner formed inside
    exact shaped.exec frame formed
  newFunction is f same := by
    subst is
    simp only [Statement.wellFormed, Bool.and_eq_true] at formed
    rw [← same] at formed
    exact Machine.WellFormed.newFunction formed.2
  makeClass is := by
    subst is
    simp only [Statement.wellFormed, Bool.and_eq_true] at formed
    exact Machine.WellFormed.coarse.makeClass (shaped.eval frame) frame _ _ fun _ =>
      shaped.block _ formed.2

variable (fallback : Fault → Eval Unit)

theorem next_exec (steps : Nat) (frame : Frame) {inLoop inFunction : Bool} {s : Statement}
    (formed : s.wellFormed inLoop inFunction = true) :
    Agree Machine.WellFormed ((l.next steps l.block).exec frame s)
      ((l'.nextOr fallback steps).exec frame s) := by
  have steady := shaped.steady steps frame formed
  have parts := steady.toParts
  cases s with
  | simple line action => exact (parts.simpleOr fallback formed).located line
  | forLoop line target iterable body orelse =>
    simp only [Statement.wellFormed, Bool.and_eq_true] at formed
    obtain ⟨⟨⟨⟨⟨-, assignable⟩, -⟩, -⟩, suite⟩, otherwise⟩ := formed
    have anyhow (flow : Flow) : flow.Fits true true := by cases flow <;> trivial
    have blocks {within : Bool} {body : List Statement}
        (formed : Statement.allWellFormed within inFunction body = true) :
        AgreeWith Machine.WellFormed (Flow.Fits true true) (l.block frame body) (l'.block frame body) :=
      (shaped.block frame formed).mono fun flow _ => anyhow flow
    refine AgreeWith.located line <| (parts.eval iterable).bind fun v => (Agree.items v).bind
      fun values => ?_
    exact (Flow.agree_forLoop (blocks suite) (blocks otherwise)
      (parts.assignOr fallback target assignable) values.toList).agree
  | ifElse | whileLoop | function | classBody => exact steady.next_exec

theorem next (steps : Nat) : (l.next steps l.block).Shaped (l'.nextOr fallback steps) := by
  have alike := shaped.toAlike.next Machine.WellFormed.coarse.stable steps shaped.function
  exact ⟨⟨alike.eval, alike.call⟩, shaped.next_exec fallback steps⟩

end Shaped

/-- The evaluator agrees with the one that has a fallback. -/
theorem shaped_withFallback (fallback : Fault → Eval Unit) (steps : Nat) :
    (ofSteps steps).Shaped (withFallback fallback steps) := by
  induction steps with
  | zero =>
    rw [ofSteps_zero]
    exact .none
  | succ steps ih =>
    rw [ofSteps_succ]
    exact ih.next fallback steps

end Layer

namespace Evaluator

/-- The evaluator of top-level code with a fallback. -/
def execModuleOr (fallback : Fault → Eval Unit) (steps : Nat) (echo : Bool) (body : List Statement) :
    Eval Unit :=
  discard <| (Layer.withFallback fallback steps).block (.module echo) body

theorem execModuleOr_fail (steps : Nat) (echo : Bool) (body : List Statement) :
    execModuleOr Eval.fail steps echo body = execModule steps echo body := by
  rw [execModuleOr, Layer.withFallback_fail]
  rfl

theorem agree_execModuleOr (fallback : Fault → Eval Unit) (steps : Nat) (echo : Bool)
    {body : List Statement} (formed : Statement.allWellFormed false false body = true) :
    Agree Machine.WellFormed (execModule steps echo body) (execModuleOr fallback steps echo body) :=
  Agree.discard <| (Layer.shaped_withFallback fallback steps).block (.module echo) formed

end Evaluator

theorem Machine.Reached.wellFormed {m : Machine} (reached : m.Reached) : m.WellFormed := by
  refine reached.keeps (fun f inside => ?_) (fun m _ _ _ formed => formed) ?_
  · cases Array.not_mem_empty f inside
  · intro source mode p compiles m steps echo formed
    exact (Evaluator.agree_execModuleOr Eval.fail steps echo
      (Program.wellFormed_of_compile compiles) m formed).2.left

namespace Evaluator

/-- Every program that compiles is well formed. The evaluator fails on a target that can not be assigned
to, changed or deleted. Whatever is to be done instead, it never comes to that, on no machine that
programs were run on, and so on none of a session. -/
theorem compiled_programs_are_well_formed {source : String} {mode : Token.Mode} {p : Program}
    (compiles : Program.compile source mode = .ok p) :
    Statement.allWellFormed false false p.body = true ∧
      (∀ m : Machine, m.Reached → ∀ (fallback : Fault → Eval Unit) (steps : Nat) (echo : Bool),
        execModule steps echo p.body m = execModuleOr fallback steps echo p.body m) ∧
      (∀ s : Session, s.InUse → s.machine.Reached) ∧
      ∀ steps echo body, execModule steps echo body = execModuleOr Eval.fail steps echo body := by
  have formed := Program.wellFormed_of_compile compiles
  refine ⟨formed, fun m reached fallback steps echo => ?_, fun _ => .of_inUse, fun steps echo body => ?_⟩
  · exact (agree_execModuleOr fallback steps echo formed m reached.wellFormed).1
  · exact (execModuleOr_fail steps echo body).symm

/-- A loop over a target within parentheses, two targets of one value, a place that is changed, and
three that are deleted. -/
theorem targets_of_a_program_are_dealt_with :
    ∃ source p, source = "d = [0, 1]\nfor (a, [b]) in [(1, [2])]:\n  x, d[0] = y = a, b\n" ++
        "  d[a] += b\n  del x, (y), d[b - 1]\n" ∧
      Program.compile source .script = .ok p ∧ p.body.length = 2 ∧ Machine.Reached .fresh ∧
      Statement.allWellFormed false false p.body = true ∧
      ∀ fallback, execModule 20 false p.body .fresh = execModuleOr fallback 20 false p.body .fresh := by
  have two : (Program.compile ("d = [0, 1]\nfor (a, [b]) in [(1, [2])]:\n  x, d[0] = y = a, b\n" ++
      "  d[a] += b\n  del x, (y), d[b - 1]\n") .script).toOption.map (·.body.length) = some 2 := by
    decide +kernel
  cases compiles : Program.compile ("d = [0, 1]\nfor (a, [b]) in [(1, [2])]:\n  x, d[0] = y = a, b\n" ++
      "  d[a] += b\n  del x, (y), d[b - 1]\n") .script with
  | error e =>
    rw [compiles] at two
    cases two
  | ok p =>
    rw [compiles] at two
    obtain ⟨formed, runs, -, -⟩ := compiled_programs_are_well_formed compiles
    exact ⟨_, p, rfl, compiles, Option.some.inj two, .fresh, formed, fun fallback =>
      runs .fresh .fresh fallback 20 false⟩

end Evaluator

end Console
