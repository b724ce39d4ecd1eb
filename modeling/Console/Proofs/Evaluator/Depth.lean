import Console.Proofs.Evaluator.Statements

/-!
# The books of a machine

An evaluation leaves the depth of calls and the features as they were, only adds to the output, and of
the built-in names makes none but `_` stand for something else. And it is never deeper in calls than it
may be: an evaluator that looks at the depth before every expression, every call, every statement and
every body, and leaves them to a handler where the depth is too great, never has anything to leave.
-/

namespace Console

open Eval

/-- The books of one machine are kept in the other one. -/
structure Machine.SameBooks (m m' : Machine) : Prop where
  depth : m'.depth = m.depth
  features : m'.features = m.features
  output : ∃ more, m'.output = m.output ++ more
  builtins : ∀ name ≠ "_", m'.builtins.get? name = m.builtins.get? name

namespace Machine.SameBooks

variable {m m' m'' : Machine}

theorem refl (m : Machine) : m.SameBooks m :=
  ⟨rfl, rfl, ⟨"", String.append_empty.symm⟩, fun _ _ => rfl⟩

theorem trans (first : m.SameBooks m') (second : m'.SameBooks m'') : m.SameBooks m'' := by
  obtain ⟨more, same⟩ := first.output
  obtain ⟨others, same'⟩ := second.output
  refine ⟨second.depth.trans first.depth, second.features.trans first.features,
    ⟨more ++ others, ?_⟩, fun name other => ?_⟩
  · rw [same', same, String.append_assoc]
  · exact (second.builtins name other).trans (first.builtins name other)

variable {start : Machine}

theorem stable : Stable start.SameBooks := by
  intro _ _ untouched kept
  refine kept.trans ⟨untouched.depth, untouched.features, untouched.output, fun name _ => ?_⟩
  rw [untouched.builtins]

/-- Neither the heap nor a global name is in the books. -/
theorem unnoticed {step : Machine → Machine} (depth : ∀ m, (step m).depth = m.depth)
    (features : ∀ m, (step m).features = m.features) (output : ∀ m, (step m).output = m.output)
    (builtins : ∀ m, (step m).builtins = m.builtins) :
    Agree start.SameBooks (modify step : Eval Unit) (modify step) := by
  refine .modify fun m kept => kept.trans ⟨depth m, features m, ⟨"", ?_⟩, fun name _ => ?_⟩
  · rw [output, String.append_empty]
  · rw [builtins]

/-- The value that is shown last is put down under `_`. -/
theorem remember (v : Value) :
    Agree start.SameBooks (modify fun m => { m with builtins := m.builtins.set "_" v } : Eval Unit)
      (modify fun m => { m with builtins := m.builtins.set "_" v }) := by
  refine .modify fun m kept => kept.trans ⟨rfl, rfl, ⟨"", String.append_empty.symm⟩, fun name other => ?_⟩
  rw [Bindings.get?_set, if_neg other]

theorem newScope (vars : Bindings) (parent : Option (Ref .scope)) :
    Agree start.SameBooks (Eval.newScope vars parent) (Eval.newScope vars parent) :=
  (Agree.ask _).bind fun _ => Agree.bind
    (unnoticed (fun _ => rfl) (fun _ => rfl) (fun _ => rfl) fun _ => rfl) fun _ => Agree.pure _

theorem newFunction (f : FunctionObject) :
    Agree start.SameBooks (Eval.newFunction f) (Eval.newFunction f) :=
  (Agree.ask _).bind fun _ => Agree.bind
    (unnoticed (fun _ => rfl) (fun _ => rfl) (fun _ => rfl) fun _ => rfl) fun _ => Agree.pure _

theorem writes (frame : Frame) : WritesNames start.SameBooks frame where
  scope _ _ := unnoticed (fun _ => rfl) (fun _ => rfl) (fun _ => rfl) fun _ => rfl
  globals _ _ _ := unnoticed (fun _ => rfl) (fun _ => rfl) (fun _ => rfl) fun _ => rfl

end Machine.SameBooks

/-- Evaluates unless calls are nested too deep, which is left to the handler. -/
def Eval.bounded {α : Type} (handler x : Eval α) : Eval α := do
  if (← get).depth ≤ Machine.maxDepth then x else handler

theorem Eval.Agree.bounded {α : Type} {I : Machine → Prop} {x y : Eval α}
    (shallow : ∀ m, I m → m.depth ≤ Machine.maxDepth) (h : Agree I x y) (handler : Eval α) :
    Agree I x (Eval.bounded handler y) := by
  intro m kind
  change _ = (if m.depth ≤ Machine.maxDepth then y else handler) m ∧ _
  rw [if_pos (shallow m kind)]
  exact h m kind

namespace Layer

/-- Looks at the depth before every expression, every call and every statement. -/
def bound (handler l : Layer) : Layer where
  eval frame e := Eval.bounded (handler.eval frame e) (l.eval frame e)
  call callee args := Eval.bounded (handler.call callee args) (l.call callee args)
  exec frame s := Eval.bounded (handler.exec frame s) (l.exec frame s)

/-- Looks at the depth before the body of a function or a class as well. -/
def boundedBlock (handler l : Layer) (frame : Frame) (body : List Statement) : Eval Flow :=
  Eval.bounded (handler.block frame body) (l.block frame body)

/-- The evaluator with a number of steps that looks at the depth before everything that it does. -/
def bounded (handler : Layer) : Nat → Layer
  | 0 => none
  | steps + 1 =>
    bound handler ((bounded handler steps).next steps (boundedBlock handler (bounded handler steps)))

variable {start : Machine} {l l' : Layer}

theorem Agrees.bound (agrees : l.Agrees start.SameBooks l')
    (shallow : start.depth ≤ Machine.maxDepth) (handler : Layer) :
    l.Agrees start.SameBooks (bound handler l') := by
  have shallow (m : Machine) (kept : start.SameBooks m) : m.depth ≤ Machine.maxDepth := by
    rw [kept.depth]
    exact shallow
  exact ⟨⟨fun frame e => (agrees.eval frame e).bounded shallow _,
    fun callee args => (agrees.call callee args).bounded shallow _⟩,
    fun frame s => (agrees.exec frame s).bounded shallow _⟩

/-- The layers agree on all machines that are not too deep. -/
def AgreeInDepth (l l' : Layer) : Prop :=
  ∀ start : Machine, start.depth ≤ Machine.maxDepth → l.Agrees start.SameBooks l'

namespace AgreeInDepth

variable (agree : l.AgreeInDepth l')
include agree

theorem block (shallow : start.depth ≤ Machine.maxDepth) (handler : Layer) (frame : Frame)
    (body : List Statement) :
    Agree start.SameBooks (l.block frame body) (boundedBlock handler l' frame body) := by
  have blocks : Agree start.SameBooks (l.block frame body) (l'.block frame body) :=
    agree_block (fun _ => trivial) fun s _ => (agree start shallow).exec frame s
  refine Agree.bounded (fun m kept => ?_) blocks _
  rw [kept.depth]
  exact shallow

/-- A call runs its body one call deeper than the machine is that it is made on. -/
theorem function (handler : Layer) (r : Ref .func) (args : Arguments) :
    Agree start.SameBooks (Call.function l.block r args)
      (Call.function (boundedBlock handler l') r args) := by
  by_cases deep : start.depth < Machine.maxDepth
  · refine Agree.function (J := Machine.SameBooks { start with depth := start.depth + 1 })
      (P := fun _ => True) (fun _ _ _ => trivial) ?_ ?_ Machine.SameBooks.newScope
      (fun f _ scope _ => agree.block (Nat.succ_le_of_lt deep) handler _ f.body) r args
    · intro m kept _
      exact ⟨congrArg (· + 1) kept.depth, kept.features, kept.output, kept.builtins⟩
    · intro m m' _ within
      exact ⟨congrArg (· - 1) within.depth, within.features, within.output, within.builtins⟩
  · -- At the greatest depth no body is run.
    refine Agree.function (J := fun _ => False) (P := fun _ => True) (Q := fun _ => True)
      (fun _ _ _ => trivial) ?_ (fun _ _ _ => False.elim) (fun _ _ _ => False.elim)
      (fun _ _ _ _ _ => False.elim) r args
    intro m kept shallow
    rw [kept.depth] at shallow
    exact deep shallow

theorem steady (shallow : start.depth ≤ Machine.maxDepth) (handler : Layer) (steps : Nat)
    (frame : Frame) (s : Statement) :
    Steady start.SameBooks frame l l' steps l.block (boundedBlock handler l') s where
  stable := Machine.SameBooks.stable
  assign := (Machine.SameBooks.writes frame).assign
  delete := (Machine.SameBooks.writes frame).delete
  remember := Machine.SameBooks.remember
  eval := (agree start shallow).eval frame
  callers := (agree start shallow).callers steps
  inner part _ := (agree start shallow).exec frame part
  newFunction _ _ _ := Machine.SameBooks.newFunction _
  makeClass _ := Agree.makeClass Machine.SameBooks.stable ((agree start shallow).eval frame)
    (Machine.SameBooks.newScope _ _) (fun _ _ => agree.block shallow handler _ _) _ _

/-- One more layer agrees, whoever looks at the depth there. -/
theorem next (handler : Layer) (steps : Nat) :
    (l.next steps l.block).AgreeInDepth
      (bound handler (l'.next steps (boundedBlock handler l'))) := by
  intro start shallow
  have alike := (agree start shallow).toAlike
  refine Agrees.bound ⟨?_, fun frame s => (agree.steady shallow handler steps frame s).next_exec⟩
    shallow handler
  exact alike.next Machine.SameBooks.stable steps (agree.function handler)

end AgreeInDepth

theorem agree_bounded (handler : Layer) (steps : Nat) :
    (ofSteps steps).AgreeInDepth (bounded handler steps) := by
  induction steps with
  | zero =>
    intro start _
    rw [ofSteps_zero]
    exact .none
  | succ steps ih =>
    rw [ofSteps_succ]
    exact ih.next handler steps

end Layer

namespace Evaluator

variable {m : Machine}

/-- Every evaluation keeps the books, whether it yields a value or not, and is never deeper in calls
than it may be: whatever a handler would do there, it does not come to that. -/
theorem evaluation_keeps_the_books (shallow : m.depth ≤ Machine.maxDepth) (handler : Layer)
    (steps : Nat) :
    (∀ frame e, m.SameBooks ((eval steps frame e).left m) ∧
      eval steps frame e m = (Layer.bounded handler steps).eval frame e m) ∧
    (∀ frame body, m.SameBooks ((Flow.block (exec steps frame) body).left m) ∧
      Flow.block (exec steps frame) body m = (Layer.bounded handler steps).block frame body m) ∧
    ∀ callee args, m.SameBooks ((call steps callee args).left m) ∧
      call steps callee args m = (Layer.bounded handler steps).call callee args m := by
  have agree := Layer.agree_bounded handler steps m shallow
  refine ⟨fun frame e => ?_, fun frame body => ?_, fun callee args => ?_⟩
  · obtain ⟨same, left⟩ := agree.eval frame e m (.refl m)
    exact ⟨left.left, same⟩
  · obtain ⟨same, left⟩ := Layer.agree_block (Q := fun _ => True) (fun _ => trivial)
      (fun s _ => agree.exec frame s) m (.refl m)
    exact ⟨left.left, same⟩
  · obtain ⟨same, left⟩ := agree.call callee args m (.refl m)
    exact ⟨left.left, same⟩

/-- A function that prints and calls itself, called where one more call is the last. -/
theorem books_are_kept_by_a_call_too_deep :
    ∃ (m : Machine) (frame : Frame) (e : Expr),
      m.depth < Machine.maxDepth ∧
      (∃ m', eval 9 frame e m = .error (.raised ((Fault.exception .tooDeep).atLine 3)) m' ∧
        m'.output = m.output ++ "in\n") ∧
      m.SameBooks ((eval 9 frame e).left m) ∧
      ∀ handler, eval 9 frame e m = (Layer.bounded handler 9).eval frame e m := by
  let f : FunctionObject := ⟨"f", [], [.simple 2 (.expr (.call (.name "print") [.str "in"] [])),
    .simple 3 (.return (some (.call (.name "f") [] [])))], [], none, rfl⟩
  let m : Machine := { Machine.fresh with
    heap := { Heap.empty with functions := #[f] }, globals := [("f", .function ⟨0⟩)], depth := 99 }
  have general (handler : Layer) := (evaluation_keeps_the_books (m := m) (by decide) handler 9).1
    (.module false) (.call (.name "f") [] [])
  refine ⟨m, .module false, .call (.name "f") [] [], by decide, ⟨_, rfl, ?_⟩,
    (general Layer.none).1, fun handler => (general handler).2⟩
  decide +kernel

end Evaluator

end Console
