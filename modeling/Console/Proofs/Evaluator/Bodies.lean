import Console.Proofs.Evaluator.Layers

/-!
# Names and bodies in frames of their own

A statement binds and unbinds names in the scope of its frame or among the globals. A call runs a body
one call deeper, and a class statement runs one in a scope of its own. On machines of a kind that says
something of depths or scopes the body is run on a machine of another kind, in a scope of which more is
known.
-/

namespace Console

theorem Bindings.get?_erase_of_ne {name other : String} (different : other ≠ name) (b : Bindings) :
    (b.erase name).get? other = b.get? other := by
  induction b with
  | nil => rfl
  | cons e rest ih => grind [erase, get?]

/-- At the end it is one call up again, however the evaluation ends. -/
theorem Call.deeper_eq {α : Type} (x : Eval α) (m : Machine) : Call.deeper x m =
    if Machine.maxDepth ≤ m.depth then .error (.raised (Fault.exception .tooDeep)) m
    else match x { m with depth := m.depth + 1 } with
      | .ok a m' => .ok a { m' with depth := m'.depth - 1 }
      | .error stop m' => .error stop { m' with depth := m'.depth - 1 } := by
  have read : Call.deeper x m = ite (α := Eval α) (Machine.maxDepth ≤ m.depth) _ _ m := rfl
  rw [read]
  split
  · rfl
  · rfl

namespace Eval

variable {I J : Machine → Prop} {α : Type}

/-- The machine that an evaluation leaves behind, whether it yields a value or not. -/
def left (x : Eval α) (m : Machine) : Machine :=
  match x m with
  | .ok _ m' | .error _ m' => m'

theorem Leaves.left {Q : α → Prop} {x : Eval α} {m : Machine} (h : Leaves I Q (x m)) :
    I (x.left m) := by
  unfold Eval.left
  cases run : x m with
  | ok a m' =>
    rw [run] at h
    exact h.2
  | error stop m' =>
    rw [run] at h
    exact h

/-- A change of the machine that keeps its kind. -/
theorem Agree.modify {step : Machine → Machine} (kept : ∀ m, I m → I (step m)) :
    Agree I (modify step : Eval Unit) (modify step) :=
  AgreeWith.of_eq (fun m => ((), step m)) (fun _ => rfl) (fun _ _ => trivial) kept

/-- What a frame may do to the scope and the globals that it binds names in keeps machines of a kind. -/
structure WritesNames (I : Machine → Prop) (frame : Frame) : Prop where
  scope : ∀ {name r}, frame.home? name = some r → ∀ change,
    Agree I (changeScope r change) (changeScope r change)
  globals : ∀ {name}, frame.home? name = none → ∀ change : Bindings → Bindings,
    (∀ b other, other ≠ name → (change b).get? other = b.get? other) →
    Agree I (modify fun m => { m with globals := change m.globals } : Eval Unit)
      (modify fun m => { m with globals := change m.globals })

namespace WritesNames

variable {frame : Frame} (writes : WritesNames I frame)
include writes

theorem assign (name : String) (v : Value) : Agree I (frame.assign name v) (frame.assign name v) := by
  unfold Frame.assign
  cases home : frame.home? name with
  | some r => exact writes.scope home _
  | none =>
    refine writes.globals home (·.set name v) fun b other different => ?_
    rw [Bindings.get?_set, if_neg different]

theorem delete (name : String) : Agree I (frame.delete name) (frame.delete name) := by
  unfold Frame.delete
  cases home : frame.home? name with
  | some r =>
    refine (Agree.ask _).bind fun bound => ?_
    split
    · exact writes.scope home _
    · exact Agree.fail _
  | none =>
    refine Agree.get.bind fun m => ?_
    split
    · exact writes.globals home (·.erase name) fun b other different =>
        Bindings.get?_erase_of_ne different b
    · exact Agree.fail _

end WritesNames

/-- One call deeper the machines are of the kind `J`. -/
theorem AgreeWith.deeper {Q : α → Prop} {x y : Eval α}
    (enter : ∀ m, I m → m.depth < Machine.maxDepth → J { m with depth := m.depth + 1 })
    (leave : ∀ m m', I m → J m' → I { m' with depth := m'.depth - 1 }) (h : AgreeWith J Q x y) :
    AgreeWith I Q (Call.deeper x) (Call.deeper y) := by
  intro m kind
  rw [Call.deeper_eq, Call.deeper_eq]
  split
  · exact ⟨rfl, kind⟩
  · next deep =>
    obtain ⟨same, left⟩ := h _ (enter m kind (Nat.lt_of_not_le deep))
    rw [← same]
    refine ⟨rfl, ?_⟩
    cases run : x { m with depth := m.depth + 1 } with
    | ok a m' =>
      rw [run] at left
      exact ⟨left.1, leave m m' kind left.2⟩
    | error stop m' =>
      rw [run] at left
      exact leave m m' kind left

variable {Q : Ref .scope → Prop} {eval eval' : Expr → Eval Value}
  {run run' : Frame → List Statement → Eval Flow}

/-- Calls agree if the bodies do of the functions that there are, in the scopes that calls open for
them. -/
theorem Agree.function {P : FunctionObject → Prop} (known : ∀ m, I m → ∀ r, P (m.heap.function r))
    (enter : ∀ m, I m → m.depth < Machine.maxDepth → J { m with depth := m.depth + 1 })
    (leave : ∀ m m', I m → J m' → I { m' with depth := m'.depth - 1 })
    (scopes : ∀ vars parent, AgreeWith J Q (Eval.newScope vars parent) (Eval.newScope vars parent))
    (bodies : ∀ f, P f → ∀ scope, Q scope →
      Agree J (run (.function scope (allDeclaredGlobals f.body)) f.body)
        (run' (.function scope (allDeclaredGlobals f.body)) f.body))
    (r : Ref .func) (args : Arguments) :
    Agree I (Call.function run r args) (Call.function run' r args) := by
  refine AgreeWith.bind (.ask fun m kind => known m kind r) fun f is => ?_
  refine (Agree.ofFault _).bind fun bindings => ?_
  have body := (scopes bindings f.closure).bind fun scope fresh => bodies f is scope fresh
  refine (body.deeper enter leave).bind fun flow _ => ?_
  split
  · exact Agree.pure _
  · exact Agree.pure _

/-- Class statements agree if their bodies do, in the scopes that are opened for them. -/
theorem Agree.makeClass (stable : Stable I) (evals : ∀ e, Agree I (eval e) (eval' e)) {frame : Frame}
    (scopes : AgreeWith I Q (Eval.newScope [] frame.closure) (Eval.newScope [] frame.closure))
    {body : List Statement}
    (bodies : ∀ scope, Q scope → Agree I (run (.classBody scope frame.closure) body)
      (run' (.classBody scope frame.closure) body))
    (name : String) (bases : List Expr) :
    Agree I (Evaluator.makeClass eval run frame name bases body)
      (Evaluator.makeClass eval' run' frame name bases body) := by
  refine (Agree.bases evals bases).bind fun _ => scopes.bind fun scope fresh => ?_
  exact (bodies scope fresh).discard.bind fun _ => (Agree.ask _).bind fun _ => stable.newClass _

/-! ## Kinds of machines that names do not matter to

A kind of machine may be told by the functions and the features of a machine alone. Then the names that
are bound and unbound, the scopes that calls open and the depth of calls keep a machine of its kind, and
calls and class bodies agree as soon as the bodies do that they run.
-/

/-- What kind a machine is of depends on its functions and its features alone. -/
def Coarse (I : Machine → Prop) : Prop :=
  ∀ m m' : Machine, m'.heap.functions = m.heap.functions → m'.features = m.features → I m → I m'

namespace Coarse

variable {I : Machine → Prop} (coarse : Coarse I)
include coarse

theorem stable : Stable I :=
  fun m m' untouched => coarse m m' untouched.functions untouched.features

theorem keeps {step : Machine → Machine}
    (functions : ∀ m, (step m).heap.functions = m.heap.functions)
    (features : ∀ m, (step m).features = m.features) :
    Agree I (modify step : Eval Unit) (modify step) :=
  .modify fun m => coarse m _ (functions m) (features m)

theorem newScope (vars : Bindings) (parent : Option (Ref .scope)) :
    Agree I (Eval.newScope vars parent) (Eval.newScope vars parent) :=
  (Agree.ask _).bind fun _ => Agree.bind (coarse.keeps (fun _ => rfl) fun _ => rfl) fun _ =>
    Agree.pure _

theorem writes (frame : Frame) : WritesNames I frame where
  scope _ _ := coarse.keeps (fun _ => rfl) fun _ => rfl
  globals _ _ _ := coarse.keeps (fun _ => rfl) fun _ => rfl

theorem parts (frame : Frame) {l l' : Layer} (alike : l.Alike I l') (steps : Nat) :
    Parts I frame (l.eval frame) (l'.eval frame) ⟨l.call, steps⟩ ⟨l'.call, steps⟩ where
  stable := coarse.stable
  assign := (coarse.writes frame).assign
  delete := (coarse.writes frame).delete
  remember _ := coarse.keeps (fun _ => rfl) fun _ => rfl
  eval := alike.eval frame
  callers := alike.callers steps

variable {run run' : Frame → List Statement → Eval Flow}

/-- Calls agree if the bodies do of the functions that there are. -/
theorem function {P : FunctionObject → Prop} (known : ∀ m, I m → ∀ r, P (m.heap.function r))
    (bodies : ∀ f, P f → ∀ scope globals,
      Agree I (run (.function scope globals) f.body) (run' (.function scope globals) f.body))
    (r : Ref .func) (args : Arguments) :
    Agree I (Call.function run r args) (Call.function run' r args) :=
  Agree.function known (fun m kind _ => coarse m _ rfl rfl kind)
    (fun _ m' _ kind => coarse m' _ rfl rfl kind) coarse.newScope
    (fun f is scope _ => bodies f is scope _) r args

theorem makeClass {eval eval' : Expr → Eval Value} (evals : ∀ e, Agree I (eval e) (eval' e))
    (frame : Frame) (name : String) (bases : List Expr) {body : List Statement}
    (bodies : ∀ scope, Agree I (run (.classBody scope frame.closure) body)
      (run' (.classBody scope frame.closure) body)) :
    Agree I (Evaluator.makeClass eval run frame name bases body)
      (Evaluator.makeClass eval' run' frame name bases body) :=
  Agree.makeClass coarse.stable evals (coarse.newScope _ _) (fun scope _ => bodies scope) name bases

end Coarse

end Eval

end Console
