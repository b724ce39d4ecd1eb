import Console.Proofs.Evaluator.Jumps

/-!
# Statements of one frame

A statement on one more layer is put together from the expressions, the calls and the statements of the
layer below. It agrees if these do in its frame, and if the new functions and the classes do that it may
make.
-/

namespace Console

/-- The statements that run as parts of a statement, in its own frame. -/
def Statement.inner : Statement → List Statement
  | .ifElse _ _ body orelse | .whileLoop _ _ body orelse | .forLoop _ _ _ body orelse => body ++ orelse
  | .simple _ _ | .function _ _ _ _ | .classBody _ _ _ _ => []

namespace Layer

open Eval

variable {I : Machine → Prop} {l l' : Layer} {frame : Frame}
  {run run' : Frame → List Statement → Eval Flow}

theorem agree_block {Q : Flow → Prop} (all : ∀ flow, Q flow) {body : List Statement}
    (each : ∀ s ∈ body, Agree I (l.exec frame s) (l'.exec frame s)) :
    AgreeWith I Q (l.block frame body) (l'.block frame body) :=
  Flow.agree_block (all _) fun s inside => (each s inside).mono fun flow _ => all flow

/-- All that a statement of a frame is put together from agrees. -/
structure Steady (I : Machine → Prop) (frame : Frame) (l l' : Layer) (steps : Nat)
    (run run' : Frame → List Statement → Eval Flow) (s : Statement) : Prop
    extends Parts I frame (l.eval frame) (l'.eval frame) ⟨l.call, steps⟩ ⟨l'.call, steps⟩ where
  inner : ∀ part ∈ s.inner, Agree I (l.exec frame part) (l'.exec frame part)
  newFunction : ∀ {line name parameters body}, s = .function line name parameters body →
    ∀ f : FunctionObject, f.body = body → Agree I (Eval.newFunction f) (Eval.newFunction f)
  makeClass : ∀ {line name bases body}, s = .classBody line name bases body →
    Agree I (Evaluator.makeClass (l.eval frame) run frame name bases body)
      (Evaluator.makeClass (l'.eval frame) run' frame name bases body)

theorem Steady.next_exec {steps : Nat} {s : Statement}
    (steady : Steady I frame l l' steps run run' s) :
    Agree I ((l.next steps run).exec frame s) ((l'.next steps run').exec frame s) := by
  have parts := steady.toParts
  have anyhow (flow : Flow) : flow.Fits true true := by cases flow <;> trivial
  have block {body : List Statement} (inside : ∀ part ∈ body, part ∈ s.inner) :
      AgreeWith I (Flow.Fits true true) (l.block frame body) (l'.block frame body) :=
    agree_block anyhow fun part mem => steady.inner part (inside part mem)
  refine .located s.line ?_
  cases s with
  | simple line action =>
    exact parts.simple action _ trivial (fun _ => trivial) (fun _ => trivial) fun _ _ _ => trivial
  | ifElse line test body orelse =>
    refine (parts.eval test).bind fun v => (Agree.isTrue v).bind fun holds => ?_
    split
    · exact (block fun _ => List.mem_append_left orelse).agree
    · exact (block fun _ => List.mem_append_right body).agree
  | whileLoop line test body orelse =>
    have tests := (parts.eval test).bind fun v => Agree.isTrue v
    exact (Flow.agree_whileLoop (block fun _ => List.mem_append_left orelse)
      (block fun _ => List.mem_append_right body) tests steps).agree
  | forLoop line target iterable body orelse =>
    refine (parts.eval iterable).bind fun v => (Agree.items v).bind fun values => ?_
    exact (Flow.agree_forLoop (block fun _ => List.mem_append_left orelse)
      (block fun _ => List.mem_append_right body) (parts.assignTo target) values.toList).agree
  | function line name parameters body =>
    exact (Agree.makeFunction parts.eval frame name parameters body (steady.newFunction rfl)).bind
      fun f => (parts.assign name f).bind fun _ => Agree.pure _
  | classBody line name bases body =>
    exact (steady.makeClass rfl).bind fun c => (parts.assign name c).bind fun _ => Agree.pure _

/-- The expressions, the calls and the statements of two layers agree. -/
structure Agrees (I : Machine → Prop) (l l' : Layer) : Prop extends l.Alike I l' where
  exec : ∀ frame s, Agree I (l.exec frame s) (l'.exec frame s)

theorem Agrees.none : Layer.none.Agrees I Layer.none :=
  ⟨.none, fun _ _ => Agree.exhausted⟩

end Layer

end Console
