import Console.Proofs.Evaluator.Bodies
import Console.Proofs.Evaluator.Loops
import Console.Proofs.Session.Use
import Console.Proofs.Tree.Placement

/-!
# Jumps at run time

What stands where it may ends as what is around it expects: the functions of a machine are kept well
placed, and on such a machine a body ends normally, or with the return of a function. An evaluator that
watches over how bodies end never has anything to do.
-/

namespace Console

open Eval

/-- How a statement may end that stands in a loop or not, and in a function or not. -/
def Flow.Fits (inLoop inFunction : Bool) : Flow → Prop
  | .normal => True
  | .break | .continue => inLoop = true
  | .return _ => inFunction = true

/-- The bodies of all functions have their jumps where they may stand. -/
def Machine.WellPlaced (m : Machine) : Prop :=
  ∀ f ∈ m.heap.functions, allPlaced false true f.body = true

namespace Flow

variable {I : Machine → Prop} {inLoop inFunction : Bool}

theorem agree_block {α : Type} {Q : Flow → Prop} (normal : Q .normal) {exec exec' : α → Eval Flow}
    {body : List α} (parts : ∀ s ∈ body, AgreeWith I Q (exec s) (exec' s)) :
    AgreeWith I Q (block exec body) (block exec' body) := by
  induction body with
  | nil => exact .pure normal
  | cons s rest ih =>
    refine .bind (parts s List.mem_cons_self) fun flow fits => ?_
    split
    · exact ih fun s inside => parts s (List.mem_cons_of_mem _ inside)
    · exact .pure fits

variable {body body' orelse orelse' : Eval Flow}

section

variable (bodies : AgreeWith I (Fits true inFunction) body body')
  (orelses : AgreeWith I (Fits inLoop inFunction) orelse orelse')
include bodies orelses

/-- A loop ends as its `else` does, normally, or with a return out of its body. -/
theorem agree_whileLoop {test test' : Eval Bool} (tests : Agree I test test') (steps : Nat) :
    AgreeWith I (Fits inLoop inFunction) (whileLoop test body orelse steps)
      (whileLoop test' body' orelse' steps) := by
  induction steps with
  | zero => exact .throw _
  | succ steps ih =>
    refine .bind tests fun holds _ => ?_
    split
    · refine .bind bodies fun flow fits => ?_
      split
      · exact .pure trivial
      · exact .pure fits
      · exact ih
      · exact ih
    · exact orelses

theorem agree_forLoop {assign assign' : Value → Eval Unit}
    (assigns : ∀ v, Agree I (assign v) (assign' v)) (values : List Value) :
    AgreeWith I (Fits inLoop inFunction) (forLoop assign body orelse values)
      (forLoop assign' body' orelse' values) := by
  induction values with
  | nil => exact orelses
  | cons v rest ih =>
    refine .bind (assigns v) fun _ _ => .bind bodies fun flow fits => ?_
    split
    · exact .pure trivial
    · exact .pure fits
    · exact ih
    · exact ih

end

end Flow

namespace Machine.WellPlaced

/-- Only the functions matter. -/
theorem coarse : Coarse WellPlaced := by
  intro m m' functions _ kind
  unfold WellPlaced
  rw [functions]
  exact kind

theorem function {m : Machine} (kind : m.WellPlaced) (r : Ref .func) :
    allPlaced false true (m.heap.function r).body = true := by
  unfold Heap.function
  cases found : m.heap.functions[r.index]? with
  | none => rfl
  | some f => exact kind f (Array.mem_of_getElem? found)

theorem newFunction {f : FunctionObject} (placed : allPlaced false true f.body = true) :
    Agree WellPlaced (Eval.newFunction f) (Eval.newFunction f) := by
  refine AgreeWith.of_eq (fun m => (.function ⟨m.heap.functions.size⟩,
    { m with heap := { m.heap with functions := m.heap.functions.push f } })) (fun _ => rfl)
    (fun _ _ => trivial) fun m kind g inside => ?_
  rcases Array.mem_push.1 inside with old | rfl
  · exact kind g old
  · exact placed

end Machine.WellPlaced

/-- How the code of a frame is expected to end. -/
def Frame.expects : Frame → Flow → Bool
  | _, .normal => true
  | .function _ _, .return _ => true
  | _, _ => false

namespace Flow

/-- How a body ends. What it is not expected to end with is left to the handler. -/
def watched (handler : Frame → Flow → Eval Flow) (frame : Frame) (run : Eval Flow) : Eval Flow := do
  let flow ← run
  if frame.expects flow then return flow else handler frame flow

/-- Where all is as expected the handler has nothing to do. -/
theorem agree_watched {I : Machine → Prop} {Q : Flow → Prop} (handler : Frame → Flow → Eval Flow)
    {frame : Frame} (expected : ∀ flow, Q flow → frame.expects flow = true) {run run' : Eval Flow}
    (runs : AgreeWith I Q run run') : AgreeWith I Q run (watched handler frame run') := by
  have same : run = run >>= pure := by simp
  rw [same]
  refine .bind runs fun flow fits => ?_
  rw [if_pos (expected flow fits)]
  exact .pure fits

end Flow

namespace Layer

/-- Runs the body of a frame and watches over how it ends. -/
def watchedBlock (handler : Frame → Flow → Eval Flow) (l : Layer) (frame : Frame)
    (body : List Statement) : Eval Flow :=
  Flow.watched handler frame (l.block frame body)

/-- The evaluator with a number of steps that watches over all bodies of functions and classes. -/
def watched (handler : Frame → Flow → Eval Flow) : Nat → Layer
  | 0 => none
  | steps + 1 => (watched handler steps).next steps ((watched handler steps).watchedBlock handler)

variable {l l' : Layer}

/-- The layers agree, and what is well placed ends as it may. -/
structure Fits (l l' : Layer) : Prop extends l.Alike Machine.WellPlaced l' where
  exec : ∀ frame inLoop inFunction s, s.placed inLoop inFunction = true →
    AgreeWith Machine.WellPlaced (Flow.Fits inLoop inFunction) (l.exec frame s) (l'.exec frame s)

namespace Fits

theorem none : Layer.none.Fits Layer.none :=
  ⟨.none, fun _ _ _ _ _ => .throw _⟩

variable (fits : l.Fits l')
include fits

theorem block (frame : Frame) {inLoop inFunction : Bool} {body : List Statement}
    (placed : allPlaced inLoop inFunction body = true) :
    AgreeWith Machine.WellPlaced (Flow.Fits inLoop inFunction) (l.block frame body)
      (l'.block frame body) :=
  Flow.agree_block trivial fun s inside => fits.exec frame inLoop inFunction s
    (placed_of_mem placed inside)

variable (handler : Frame → Flow → Eval Flow)

/-- A body that is well placed in its own right is not expected to end otherwise than it does. -/
theorem watched_block {frame : Frame} {inFunction : Bool}
    (returns : inFunction = true → ∀ v, frame.expects (.return v) = true) {body : List Statement}
    (placed : allPlaced false inFunction body = true) :
    AgreeWith Machine.WellPlaced (Flow.Fits false inFunction) (l.block frame body)
      (l'.watchedBlock handler frame body) := by
  refine Flow.agree_watched handler (fun flow ends => ?_) (fits.block frame placed)
  cases flow with
  | normal => cases frame <;> rfl
  | «break» => cases ends
  | «continue» => cases ends
  | «return» v => exact returns ends v

theorem function (r : Ref .func) (args : Arguments) :
    Agree Machine.WellPlaced (Call.function l.block r args)
      (Call.function (l'.watchedBlock handler) r args) :=
  Machine.WellPlaced.coarse.function (P := fun f => allPlaced false true f.body = true)
    (fun _ kind r => Machine.WellPlaced.function kind r)
    (fun _ placed _ _ => (fits.watched_block handler (fun _ _ => rfl) placed).agree) r args

theorem makeClass (frame : Frame) (name : String) (bases : List Expr) {body : List Statement}
    (placed : allPlaced false false body = true) :
    Agree Machine.WellPlaced (Evaluator.makeClass (l.eval frame) l.block frame name bases body)
      (Evaluator.makeClass (l'.eval frame) (l'.watchedBlock handler) frame name bases body) :=
  Machine.WellPlaced.coarse.makeClass (fits.eval frame) frame name bases fun _ =>
    (fits.watched_block handler Bool.noConfusion placed).agree

/-- One more layer still ends as it may. -/
theorem next_exec (steps : Nat) (frame : Frame) (inLoop inFunction : Bool) (s : Statement)
    (placed : s.placed inLoop inFunction = true) :
    AgreeWith Machine.WellPlaced (Flow.Fits inLoop inFunction) ((l.next steps l.block).exec frame s)
      ((l'.next steps (l'.watchedBlock handler)).exec frame s) := by
  have parts := Machine.WellPlaced.coarse.parts frame fits.toAlike steps
  have evals := fits.eval frame
  refine .located s.line ?_
  cases s with
  | simple line action =>
    refine parts.simple action _ trivial ?_ ?_ ?_
    · rintro rfl
      exact placed
    · rintro rfl
      exact placed
    · rintro e rfl v
      exact placed
  | ifElse line test body orelse =>
    obtain ⟨first, second⟩ := Bool.and_eq_true_iff.1 placed
    refine .bind (evals test) fun v _ => .bind (Agree.isTrue v) fun holds _ => ?_
    split
    · exact fits.block frame first
    · exact fits.block frame second
  | whileLoop line test body orelse =>
    obtain ⟨first, second⟩ := Bool.and_eq_true_iff.1 placed
    exact Flow.agree_whileLoop (fits.block frame first) (fits.block frame second)
      ((evals test).bind fun v => Agree.isTrue v) steps
  | forLoop line target iterable body orelse =>
    obtain ⟨first, second⟩ := Bool.and_eq_true_iff.1 placed
    exact .bind (evals iterable) fun v _ => .bind (Agree.items v) fun values _ =>
      Flow.agree_forLoop (fits.block frame first) (fits.block frame second)
        (parts.assignTo target) values.toList
  | function line name parameters body =>
    have made := Agree.makeFunction evals frame name parameters body fun f same =>
      Machine.WellPlaced.newFunction (by rw [same]; exact placed)
    exact .bind made fun f _ => .bind (parts.assign name f) fun _ _ => .pure trivial
  | classBody line name bases body =>
    exact .bind (fits.makeClass handler frame name bases placed) fun c _ =>
      .bind (parts.assign name c) fun _ _ => .pure trivial

theorem next (steps : Nat) :
    (l.next steps l.block).Fits (l'.next steps (l'.watchedBlock handler)) :=
  ⟨fits.toAlike.next Machine.WellPlaced.coarse.stable steps (fits.function handler),
    fits.next_exec handler steps⟩

end Fits

/-- The evaluator agrees with the one that watches over it. -/
theorem fits_watched (handler : Frame → Flow → Eval Flow) (steps : Nat) :
    (ofSteps steps).Fits (watched handler steps) := by
  induction steps with
  | zero =>
    rw [ofSteps_zero]
    exact .none
  | succ steps ih =>
    rw [ofSteps_succ]
    exact ih.next handler steps

theorem agree_module (handler : Frame → Flow → Eval Flow) (steps : Nat) (echo : Bool)
    {body : List Statement} (placed : allPlaced false false body = true) :
    AgreeWith Machine.WellPlaced (Flow.Fits false false) ((ofSteps steps).block (.module echo) body)
      ((watched handler steps).watchedBlock handler (.module echo) body) :=
  (fits_watched handler steps).watched_block handler Bool.noConfusion placed

theorem normal_of_module (steps : Nat) (echo : Bool) {body : List Statement}
    (placed : allPlaced false false body = true) {m m' : Machine} (kind : m.WellPlaced) {flow : Flow}
    (run : (ofSteps steps).block (.module echo) body m = .ok flow m') : flow = .normal := by
  obtain ⟨-, left⟩ := agree_module (fun _ _ => exhausted) steps echo placed m kind
  rw [run] at left
  cases flow with
  | normal => rfl
  | «break» => cases left.1
  | «continue» => cases left.1
  | «return» v => cases left.1

end Layer

/-- The machines that programs were run on, and those made ready for the next one. -/
inductive Machine.Reached : Machine → Prop
  | fresh : Reached fresh
  | prepared {m : Machine} (features : Features) (output : String) (depth : Nat) :
    Reached m → Reached { m with features, output, depth }
  | ran {m : Machine} {source : String} {mode : Token.Mode} {p : Program} (steps : Nat) (echo : Bool)
    (features : Features) (compiles : Program.compile source mode = .ok p) :
    Reached m → Reached (m.runProgram steps echo features p).2

namespace Machine.Reached

variable {m : Machine}

theorem run (reached : Reached m) (source : String) (mode : Token.Mode) (features : Features) :
    Reached (m.run source mode features).2 := by
  unfold Machine.run
  cases compiled : Program.compile source mode with
  | error e => exact reached
  | ok p => exact reached.ran _ _ _ compiled

theorem lasting : Session.Lasting fun s => Reached s.machine where
  feed recorded line reached := by
    rw [Session.feed_eq]
    split
    · exact reached
    · exact reached.run _ .single _
    · exact reached
  interrupt reached := reached
  setCurrent _ reached := reached
  recallLastWord reached := by
    obtain ⟨cursor, current, same⟩ := Session.recallLastWord_eq _
    rw [same]
    exact reached
  withHistory _ reached := reached
  runScript source reached := reached.run source .script _
  restarted _ := .fresh

/-- All that is run in a session is run on such a machine. -/
theorem of_inUse {s : Session} (used : s.InUse) : Reached s.machine :=
  used.keeps lasting fun _ _ _ => .fresh

/-- What runs of programs keep, whatever features, output and depth they start with, holds of all these
machines. -/
theorem keeps {I : Machine → Prop} (start : I Machine.fresh)
    (prepares : ∀ (m : Machine) features output depth, I m → I { m with features, output, depth })
    (runs : ∀ {source : String} {mode : Token.Mode} {p : Program},
      Program.compile source mode = .ok p → ∀ (m : Machine) steps echo,
      I m → I ((Evaluator.execModule steps echo p.body).left m)) (reached : Reached m) : I m := by
  induction reached with
  | fresh => exact start
  | prepared features output depth _ ih => exact prepares _ features output depth ih
  | @ran m source mode p steps echo features compiles _ ih =>
    have ended := runs compiles { m with features := features.union p.future, output := "", depth := 0 }
      steps echo (prepares _ _ _ _ ih)
    unfold Eval.left at ended
    unfold runProgram
    dsimp only
    cases run : Evaluator.execModule steps echo p.body
      { m with features := features.union p.future, output := "", depth := 0 } with
    | ok _ m' =>
      rw [run] at ended
      exact prepares m' m'.features "" m'.depth ended
    | error stop m' =>
      rw [run] at ended
      cases stop <;> exact prepares m' m'.features "" m'.depth ended

theorem wellPlaced (reached : Reached m) : m.WellPlaced := by
  refine reached.keeps (fun f inside => ?_) (fun m _ _ _ placed => placed) ?_
  · cases Array.not_mem_empty f inside
  · intro source mode p compiles m steps echo kind
    exact ((Layer.agree_module (fun _ _ => exhausted) steps echo
      (Program.placed_of_compile compiles)).agree.discard m kind).2.left

end Machine.Reached

/-- What is known of the machine that a script leaves behind. -/
theorem Machine.exists_reached (source : String) (steps : Nat) (known : Machine → Bool)
    (checked : (Program.compile source .script).toOption.any
      (fun p => known (fresh.runProgram steps false .none p).2) = true) :
    ∃ m : Machine, m.Reached ∧ known m = true := by
  cases compiles : Program.compile source .script with
  | error e =>
    rw [compiles] at checked
    cases checked
  | ok p =>
    rw [compiles] at checked
    exact ⟨_, Reached.fresh.ran steps false .none compiles, checked⟩

namespace Evaluator

/-- The evaluator of top-level code that watches over how it ends, and over how the bodies of the
functions and classes in it end. -/
def watchModule (handler : Frame → Flow → Eval Flow) (steps : Nat) (echo : Bool)
    (body : List Statement) : Eval Unit :=
  discard <| (Layer.watched handler steps).watchedBlock handler (.module echo) body

/-- No jump is dropped. Top-level code ends normally. Whatever is to be done about the body of a class
that does not end normally, or about the body of a function that ends in the jump of a loop, it never
comes to that. And a jump that the body of a loop arrives at, maybe behind the `else` of a loop in
there, acts on that loop. -/
theorem no_jump_is_dropped {source : String} {mode : Token.Mode} {p : Program} {m : Machine}
    (compiles : Program.compile source mode = .ok p) (reached : m.Reached) :
    (∀ (steps : Nat) (echo : Bool),
      (∀ flow m', Flow.block (exec steps (.module echo)) p.body m = .ok flow m' → flow = .normal) ∧
      ∀ handler, execModule steps echo p.body m = watchModule handler steps echo p.body m) ∧
    ∀ (steps : Nat) (frame : Frame) (body : List Statement) (m₀ m₁ m₂ : Machine)
      (loop others : Eval Flow),
      Flow.Enters (Flow.block (exec steps frame) body) m₀ m₁ loop others →
        (Arrives frame .break m₂ steps body m₁ → loop m₀ = .ok .normal m₂) ∧
        (Arrives frame .continue m₂ steps body m₁ → loop m₀ = others m₂) := by
  have placed := Program.placed_of_compile compiles
  constructor
  · intro steps echo
    exact ⟨fun _ _ => Layer.normal_of_module steps echo placed reached.wellPlaced, fun handler =>
      ((Layer.agree_module handler steps echo placed).agree.discard m reached.wellPlaced).1⟩
  · intro steps frame body m₀ m₁ m₂ loop others enters
    constructor
    · intro arrives
      exact enters.of_break (arrives.block_eq Flow.noConfusion fun _ _ => rfl)
    · intro arrives
      exact enters.of_stays (arrives.block_eq Flow.noConfusion fun _ _ => rfl) (.inr rfl)

theorem break_behind_else_ends_the_loop_around :
    (∃ source p flow m',
      source = "class A:\n  y = 1\ndef f():\n  return 2\n" ++
        "for x in [f(), 3]:\n  while 0:\n    y\n  else:\n    break\n" ∧
      Program.compile source .script = .ok p ∧ Machine.Reached .fresh ∧
      Flow.block (exec 9 (.module false)) p.body .fresh = .ok flow m' ∧ flow = .normal ∧
      ∀ handler, execModule 9 false p.body .fresh = watchModule handler 9 false p.body .fresh) ∧
    Flow.forLoop (Target.assign (eval 3 (.module false)) (.module false) (.name "x"))
      (Flow.block (exec 3 (.module false))
        [.whileLoop 6 (.bool false) [.simple 7 .pass] [.simple 9 .break]])
      (return .normal) [.int 2, .int 3] .fresh =
        .ok .normal { Machine.fresh with globals := [("x", .int 2)] } := by
  have runs : (Program.compile ("class A:\n  y = 1\ndef f():\n  return 2\n" ++
      "for x in [f(), 3]:\n  while 0:\n    y\n  else:\n    break\n") .script).toOption.any (fun p =>
        (EStateM.run' (Flow.block (exec 9 (.module false)) p.body) .fresh).isSome) = true := by
    decide +kernel
  cases compiles : Program.compile ("class A:\n  y = 1\ndef f():\n  return 2\n" ++
      "for x in [f(), 3]:\n  while 0:\n    y\n  else:\n    break\n") .script with
  | error e =>
    rw [compiles] at runs
    cases runs
  | ok p =>
    rw [compiles] at runs
    have general := no_jump_is_dropped compiles .fresh
    obtain ⟨normal, watched⟩ := general.1 9 false
    cases run : Flow.block (exec 9 (.module false)) p.body .fresh with
    | error stop m' =>
      change (EStateM.run' (Flow.block (exec 9 (.module false)) p.body) .fresh).isSome = true at runs
      delta EStateM.run' EStateM.run at runs
      rw [run] at runs
      cases runs
    | ok flow m' =>
      refine ⟨⟨_, p, flow, m', rfl, compiles, .fresh, run, normal flow m' run, watched⟩, ?_⟩
      exact (general.2 3 (.module false) _ _ _ _ _ _ (.forLoop rfl _ _)).1
        (.whileElse (.fails rfl) .here)

end Evaluator

end Console
