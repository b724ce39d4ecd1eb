import Console.Interpreter
import Console.Proofs.Evaluator.Statements

/-!
# Features in force

No evaluation changes the features of the machine that it runs on. So an evaluator that looks at them
before every statement, and leaves the statement to a handler where they are others than those that it
started with, never has anything to leave.
-/

namespace Console

open Eval

/-- These are the features in force. -/
def Machine.Under (features : Features) (m : Machine) : Prop := m.features = features

theorem Machine.Under.coarse (features : Features) : Coarse (Under features) :=
  fun _ _ _ same under => same.trans under

theorem Machine.Under.newFunction {features : Features} (f : FunctionObject) :
    Agree (Under features) (Eval.newFunction f) (Eval.newFunction f) :=
  AgreeWith.of_eq (fun m => (.function ⟨m.heap.functions.size⟩,
    { m with heap := { m.heap with functions := m.heap.functions.push f } })) (fun _ => rfl)
    (fun _ _ => trivial) fun _ under => under

namespace Layer

/-- Executes a statement if these features are in force, and leaves it to the handler otherwise. -/
def guard (features : Features) (handler : Frame → Statement → Eval Flow) (l : Layer) : Layer :=
  { l with
    exec := fun frame s => do
      if (← get).features = features then l.exec frame s else handler frame s }

/-- The evaluator with a number of steps that looks at the features before every statement. -/
def guarded (features : Features) (handler : Frame → Statement → Eval Flow) : Nat → Layer
  | 0 => none
  | steps + 1 =>
    ((guarded features handler steps).next steps (guarded features handler steps).block).guard
      features handler

/-- The layers agree where these features are in force. -/
structure Keep (features : Features) (l l' : Layer) : Prop
    extends l.Alike (Machine.Under features) l' where
  exec : ∀ frame s, Agree (Machine.Under features) (l.exec frame s) (l'.exec frame s)

namespace Keep

variable {features : Features} {l l' : Layer}

theorem none : Layer.none.Keep features Layer.none :=
  ⟨.none, fun _ _ => Agree.exhausted⟩

theorem guard (keep : l.Keep features l') (handler : Frame → Statement → Eval Flow) :
    l.Keep features (l'.guard features handler) where
  eval := keep.eval
  call := keep.call
  exec frame s := by
    intro m under
    have inForce : m.features = features := under
    change _ = (if m.features = features then l'.exec frame s else handler frame s) m ∧ _
    rw [if_pos inForce]
    exact keep.exec frame s m under

variable (keep : l.Keep features l')
include keep

theorem block (frame : Frame) (body : List Statement) :
    Agree (Machine.Under features) (l.block frame body) (l'.block frame body) :=
  agree_block (fun _ => trivial) fun s _ => keep.exec frame s

theorem steady (steps : Nat) (frame : Frame) (s : Statement) :
    Steady (Machine.Under features) frame l l' steps l.block l'.block s where
  toParts := (Machine.Under.coarse features).parts frame keep.toAlike steps
  inner part _ := keep.exec frame part
  newFunction _ _ _ := Machine.Under.newFunction _
  makeClass _ := (Machine.Under.coarse features).makeClass (keep.eval frame) frame _ _
    fun _ => keep.block _ _

theorem next (steps : Nat) : (l.next steps l.block).Keep features (l'.next steps l'.block) where
  toAlike := keep.toAlike.next (Machine.Under.coarse features).stable steps
    ((Machine.Under.coarse features).function (P := fun _ => True) (fun _ _ _ => trivial)
      fun _ _ _ _ => keep.block _ _)
  exec frame s := (keep.steady steps frame s).next_exec

end Keep

/-- The evaluator agrees with the one that looks at the features before every statement. -/
theorem keep_guarded (features : Features) (handler : Frame → Statement → Eval Flow) (steps : Nat) :
    (ofSteps steps).Keep features (guarded features handler steps) := by
  induction steps with
  | zero =>
    rw [ofSteps_zero]
    exact .none
  | succ steps ih =>
    rw [ofSteps_succ]
    exact (ih.next steps).guard handler

end Layer

namespace Evaluator

/-- The evaluator of top-level code that looks at the features before every statement, in whatever
body it stands, and leaves the statement to the handler unless these are in force. -/
def guardModule (features : Features) (handler : Frame → Statement → Eval Flow) (steps : Nat)
    (echo : Bool) (body : List Statement) : Eval Unit :=
  discard <| (Layer.guarded features handler steps).block (.module echo) body

theorem agree_guardModule (features : Features) (handler : Frame → Statement → Eval Flow)
    (steps : Nat) (echo : Bool) (body : List Statement) :
    Agree (Machine.Under features) (execModule steps echo body)
      (guardModule features handler steps echo body) :=
  Agree.discard <|
    (Layer.keep_guarded features handler steps).block (.module echo) body

end Evaluator

namespace Machine

/-- Runs top-level code under these features; a statement that others are in force for is left to the
handler. -/
def runUnder (m : Machine) (handler : Frame → Statement → Eval Flow) (steps : Nat) (echo : Bool)
    (features : Features) (body : List Statement) : Execution × Machine :=
  let started := { m with features, output := "", depth := 0 }
  let (stderr, ended) :=
    match Evaluator.guardModule features handler steps echo body started with
    | .ok () m => ("", m)
    | .error (.raised e) m => (e.traceback, m)
    | .error .exhausted m => (gaveUp, m)
    | .error .crashed m => (brokeOff, m)
  (⟨ended.output, stderr, features⟩, { ended with output := "" })

/-- A program runs under the features before it and its own, from its first statement to its last. -/
theorem runProgram_eq_runUnder (m : Machine) (handler : Frame → Statement → Eval Flow) (steps : Nat)
    (echo : Bool) (features : Features) (p : Program) :
    m.runProgram steps echo features p =
      m.runUnder handler steps echo (features.union p.future) p.body := by
  have inForce := Evaluator.agree_guardModule (features.union p.future) handler steps echo p.body
    { m with features := features.union p.future, output := "", depth := 0 } rfl
  unfold runUnder
  dsimp only
  rw [← inForce.1]
  rfl

end Machine

end Console
