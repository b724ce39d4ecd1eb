import Console.Proofs.Evaluator.Statements

/-!
# What a call does to scopes and globals

Code binds names in the scope of its frame, and the scopes of the frames that a call opens are new. So
the scopes that there were before keep their bindings. A call binds global names only through bodies
that declare them global: without such a body a name stands for what it stood for.
-/

namespace Console

open Eval

namespace Eval

/-- What kind a machine is of depends on its scopes and its globals alone. -/
def Nominal (I : Machine → Prop) : Prop :=
  ∀ m m' : Machine, m'.heap.scopes = m.heap.scopes → m'.globals = m.globals → I m → I m'

/-- Code in frames that are admitted keeps machines of a kind. The scopes that are opened for it have a
property that admits their frames. -/
structure Confined (I : Machine → Prop) (opened : Ref .scope → Prop) (admitted : Frame → Prop) :
    Prop where
  nominal : Nominal I
  newScope : ∀ vars parent,
    AgreeWith I opened (Eval.newScope vars parent) (Eval.newScope vars parent)
  writes : ∀ {frame}, admitted frame → WritesNames I frame

theorem Nominal.keeps {I : Machine → Prop} (nominal : Nominal I) {step : Machine → Machine}
    (scopes : ∀ m, (step m).heap.scopes = m.heap.scopes)
    (globals : ∀ m, (step m).globals = m.globals) :
    Agree I (modify step : Eval Unit) (modify step) :=
  .modify fun m => nominal m _ (scopes m) (globals m)

end Eval

namespace Layer

variable {I : Machine → Prop} {opened : Ref .scope → Prop} {admitted : Frame → Prop} {l : Layer}

/-- The evaluator keeps machines of a kind. Statements do in frames that are admitted. -/
structure Keeps (I : Machine → Prop) (admitted : Frame → Prop) (l : Layer) : Prop
    extends l.Alike I l where
  exec : ∀ {frame}, admitted frame → ∀ s, Agree I (l.exec frame s) (l.exec frame s)

namespace Keeps

theorem none : Layer.none.Keeps I admitted :=
  ⟨.none, fun _ _ => Agree.exhausted⟩

theorem block (keeps : l.Keeps I admitted) {frame : Frame} (here : admitted frame)
    (body : List Statement) : Agree I (l.block frame body) (l.block frame body) :=
  agree_block (fun _ => trivial) fun s _ => keeps.exec here s

/-- One more layer keeps them if it does in the bodies of functions and classes. -/
theorem next (keeps : l.Keeps I admitted) (confined : Confined I opened admitted)
    {run : Frame → List Statement → Eval Flow}
    (functions : ∀ r, opened r → ∀ globals body,
      Agree I (run (.function r globals) body) (run (.function r globals) body))
    (classes : ∀ r, opened r → ∀ around body,
      Agree I (run (.classBody r around) body) (run (.classBody r around) body)) (steps : Nat) :
    (l.next steps run).Keeps I admitted := by
  have nominal := confined.nominal
  have stable : Stable I := fun m m' untouched => nominal m m' untouched.scopes untouched.globals
  refine ⟨keeps.toAlike.next stable steps fun r args => ?_, fun here s => ?_⟩
  · exact Agree.function (P := fun _ => True) (fun _ _ _ => trivial)
      (fun m kind _ => nominal m _ rfl rfl kind) (fun _ m' _ kind => nominal m' _ rfl rfl kind)
      confined.newScope (fun f _ scope fresh => functions scope fresh _ f.body) r args
  · refine Steady.next_exec ⟨⟨stable, (confined.writes here).assign, (confined.writes here).delete,
      fun v => ?_, keeps.eval _, keeps.callers steps⟩, fun part _ => keeps.exec here part,
      fun _ _ _ => ?_, fun _ => ?_⟩
    · exact nominal.keeps (fun _ => rfl) fun _ => rfl
    · exact (Agree.ask _).bind fun _ =>
        Agree.bind (nominal.keeps (fun _ => rfl) fun _ => rfl) fun _ => Agree.pure _
    · exact Agree.makeClass stable (keeps.eval _) (confined.newScope _ _)
        (fun scope fresh => classes scope fresh _ _) _ _

end Keeps

end Layer

/-- These scopes are there, as they are here. -/
structure Machine.Saves (scopes : Array Scope) (m : Machine) : Prop where
  there : scopes.size ≤ m.heap.scopes.size
  same : ∀ i < scopes.size, m.heap.scopes[i]? = scopes[i]?

/-- Code in the frame binds names in no scope that was there. -/
def Frame.Outside (scopes : Array Scope) (frame : Frame) : Prop :=
  ∀ name r, frame.home? name = some r → scopes.size ≤ r.index

namespace Machine.Saves

variable {scopes : Array Scope}

theorem refl (m : Machine) : m.Saves m.heap.scopes :=
  ⟨Nat.le_refl _, fun _ _ => rfl⟩

/-- A new scope comes behind all others. -/
theorem newScope (vars : Bindings) (parent : Option (Ref .scope)) :
    AgreeWith (Saves scopes) (fun r => scopes.size ≤ r.index) (Eval.newScope vars parent)
      (Eval.newScope vars parent) := by
  refine .of_eq (fun m => (⟨m.heap.scopes.size⟩,
    { m with heap := { m.heap with scopes := m.heap.scopes.push ⟨vars, parent⟩ } })) (fun _ => rfl)
    (fun m saves => saves.there) fun m saves => ⟨?_, fun i inside => ?_⟩
  · exact saves.there.trans (by simp)
  · have here : i ≠ m.heap.scopes.size := Nat.ne_of_lt (Nat.lt_of_lt_of_le inside saves.there)
    simp [Array.getElem?_push, here, saves.same i inside]

theorem changeScope {r : Ref .scope} (behind : scopes.size ≤ r.index) (change : Bindings → Bindings) :
    Agree (Saves scopes) (Eval.changeScope r change) (Eval.changeScope r change) := by
  refine Agree.modify fun m saves => ⟨?_, fun i inside => ?_⟩
  · simpa using saves.there
  · have other : r.index ≠ i := by omega
    simp [Array.getElem?_modify, other, saves.same i inside]

theorem confined : Confined (Saves scopes) (fun r => scopes.size ≤ r.index) (Frame.Outside scopes) where
  nominal m m' same _ saves := by
    refine ⟨?_, ?_⟩
    · rw [same]
      exact saves.there
    · rw [same]
      exact saves.same
  newScope := newScope
  writes outside :=
    ⟨fun home => changeScope (outside _ _ home), fun _ _ _ => .modify fun _ saves => ⟨saves.1, saves.2⟩⟩

end Machine.Saves

theorem Frame.outside_function {scopes : Array Scope} {r : Ref .scope}
    (behind : scopes.size ≤ r.index) (globals : List String) :
    (Frame.function r globals).Outside scopes := by
  intro name home found
  simp only [Frame.home?] at found
  split at found
  · cases found
  · cases found
    exact behind

theorem Frame.outside_classBody {scopes : Array Scope} {r : Ref .scope}
    (behind : scopes.size ≤ r.index) (around : Option (Ref .scope)) :
    (Frame.classBody r around).Outside scopes := by
  intro name home found
  cases found
  exact behind

theorem Layer.ofSteps_saves (scopes : Array Scope) (steps : Nat) :
    (ofSteps steps).Keeps (Machine.Saves scopes) (Frame.Outside scopes) := by
  induction steps with
  | zero =>
    rw [ofSteps_zero]
    exact .none
  | succ steps ih =>
    rw [ofSteps_succ]
    exact ih.next Machine.Saves.confined
      (fun _ behind globals body => ih.block (Frame.outside_function behind globals) body)
      (fun _ behind around body => ih.block (Frame.outside_classBody behind around) body) steps

/-- Whether the code of a frame declares a name global. -/
def Frame.declares : Frame → String → Bool
  | .function _ globals, name => globals.contains name
  | _, _ => false

namespace Layer

/-- Runs a body, and gives up in front of one that declares the name global. -/
def sparingBlock (name : String) (l : Layer) (frame : Frame) (body : List Statement) : Eval Flow :=
  if frame.declares name then Eval.exhausted else l.block frame body

/-- The evaluator with a number of steps that gives up in front of the bodies of functions that
declare the name global. -/
def sparing (name : String) : Nat → Layer
  | 0 => none
  | steps + 1 => (sparing name steps).next steps (sparingBlock name (sparing name steps))

end Layer

/-- The name stands for this among the globals. -/
def Machine.Binds (name : String) (v : Option Value) (m : Machine) : Prop :=
  m.globals.get? name = v

theorem Machine.Binds.confined (name : String) (v : Option Value) :
    Confined (Binds name v) (fun _ => True) (fun frame => frame.home? name ≠ none) where
  nominal m m' _ same binds := by
    unfold Binds
    rw [same]
    exact binds
  newScope vars parent := (Agree.ask _).bind fun _ =>
    Agree.bind (.modify fun _ binds => binds) fun _ => Agree.pure _
  writes {frame} bound := by
    refine ⟨fun _ _ => .modify fun _ binds => binds, fun {other} home change others => ?_⟩
    refine .modify fun m binds => ?_
    have different : name ≠ other := by
      rintro rfl
      exact bound home
    exact (others m.globals name different).trans binds

theorem Layer.sparing_binds (name : String) (v : Option Value) (steps : Nat) :
    (sparing name steps).Keeps (Machine.Binds name v) (fun frame => frame.home? name ≠ .none) := by
  induction steps with
  | zero => exact .none
  | succ steps ih =>
    refine ih.next (Machine.Binds.confined name v) (fun r _ globals body => ?_)
      (fun r _ around body => ?_) steps
    · unfold sparingBlock
      split
      · exact Agree.exhausted
      · next undeclared => exact ih.block (by simp_all [Frame.home?, Frame.declares]) body
    · exact ih.block (by simp [Frame.home?]) body

namespace Evaluator

/-- A body that declares the name global is run in the call: it makes a difference to give up in front
of such bodies. -/
def RunsDeclaring (name : String) (steps : Nat) (callee : Value) (args : Arguments) (m : Machine) :
    Prop :=
  (Layer.sparing name steps).call callee args m ≠ call steps callee args m

/-- A call leaves every scope as it was, and of the global names it binds and unbinds only those that
some body run in the call declares global. This holds of functions, bound methods and classes, and of
whatever else is called, and however the call ends. -/
theorem call_leaves_scopes_alone (steps : Nat) (callee : Value) (args : Arguments) (m : Machine) :
    (∀ r : Ref .scope, r.index < m.heap.scopes.size →
      ((call steps callee args).left m).heap.scope r = m.heap.scope r) ∧
    ∀ name, ((call steps callee args).left m).globals.get? name ≠ m.globals.get? name →
      RunsDeclaring name steps callee args m := by
  constructor
  · intro r inside
    have saves := ((Layer.ofSteps_saves m.heap.scopes steps).call callee args m (.refl m)).2.left
    unfold Heap.scope
    rw [← saves.same r.index inside]
    rfl
  · intro name changed same
    have binds := ((Layer.sparing_binds name _ steps).call callee args m rfl).2
    rw [same] at binds
    exact changed binds.left

/-- A call of a function that binds two names and declares one of them global, where both are bound in
a scope that is there before. -/
theorem global_declaration_lets_a_call_bind :
    ∃ (m : Machine) (f : Value) (r : Ref .scope),
      r.index < m.heap.scopes.size ∧ (m.heap.scope r).vars.names = ["x", "y"] ∧
      ((call 9 f ⟨[], []⟩).left m).heap.scope r = m.heap.scope r ∧
      ((call 9 f ⟨[], []⟩).left m).globals.names = ["x"] ∧
      ((call 9 f ⟨[], []⟩).left m).globals.get? "x" ≠ m.globals.get? "x" ∧
      RunsDeclaring "x" 9 f ⟨[], []⟩ m := by
  let scope : Scope := ⟨[("x", .int 1), ("y", .int 2)], none⟩
  let f : FunctionObject := ⟨"f", [], [.simple 2 (.global ["x"]),
    .simple 3 (.assign [.name "x", .name "y"] (.int 3))], [], some ⟨0⟩, rfl⟩
  let m : Machine := { Machine.fresh with
    heap := { Heap.empty with functions := #[f], scopes := #[scope] } }
  have general := call_leaves_scopes_alone 9 (.function ⟨0⟩) ⟨[], []⟩ m
  have binds : ((call 9 (.function ⟨0⟩) ⟨[], []⟩).left m).globals = [("x", .int 3)] := by rfl
  have changed : ((call 9 (.function ⟨0⟩) ⟨[], []⟩).left m).globals.get? "x" ≠ m.globals.get? "x" := by
    rw [binds]
    exact Option.some_ne_none (Value.int 3)
  refine ⟨m, .function ⟨0⟩, ⟨0⟩, by decide, by decide, general.1 ⟨0⟩ (by decide), ?_, changed,
    general.2 "x" changed⟩
  rw [binds]
  rfl

end Evaluator

end Console
