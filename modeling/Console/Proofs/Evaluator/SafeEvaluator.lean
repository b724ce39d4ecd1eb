import Console.Proofs.Evaluator.Jumps
import Console.Proofs.Evaluator.SafeBuiltins

/-!
# Running units is safe

A frame of the heap looks names up and binds them there, and one layer of the evaluator on top of a safe
one is safe. So whatever units are run, the machine stays sound.
-/

namespace Console

namespace Heap

variable {h : Heap} {args : Arguments}

/-! ## Binding arguments -/

theorem holds_fillPositional (parameters : List Parameter) {vs : List Value} (held : h.Holds vs) :
    h.Holds (Call.fillPositional parameters vs) := by
  induction parameters generalizing vs with
  | nil => exact holds_nil
  | cons p parameters ih =>
    cases vs with
    | nil => exact holds_cons.2 ⟨holds_none, ih holds_nil⟩
    | cons v vs =>
      obtain ⟨first, others⟩ := holds_cons.1 held
      exact holds_cons.2 ⟨holds_some.2 first, ih others⟩

theorem holds_fillKeyword (callee keyword : String) {v : Value} {slots : List Call.Slot}
    (value : h.Holds v) (held : h.Holds slots) :
    h.Holds (Call.fillKeyword callee keyword v slots) := by
  induction slots with
  | nil => exact holds_error _
  | cons slot slots ih =>
    obtain ⟨first, others⟩ := holds_cons.1 held
    unfold Call.fillKeyword
    split
    · split
      · exact holds_error _
      · exact holds_ok.2 (holds_cons.2 ⟨holds_some.2 value, others⟩)
    · exact (ih others).exceptBind fun rest known => holds_ok.2 (holds_cons.2 ⟨first, known⟩)

theorem holds_fillDefaults (callee : String) {slots : List Call.Slot} {defaults : List (Option Value)}
    (held : h.Holds slots) (known : h.Holds defaults) :
    h.Holds (Call.fillDefaults callee slots defaults) := by
  induction slots generalizing defaults with
  | nil => exact holds_ok.2 holds_nil
  | cons slot slots ih =>
    obtain ⟨first, others⟩ := holds_cons.1 held
    cases defaults with
    | nil => exact holds_ok.2 holds_nil
    | cons default defaults =>
      obtain ⟨default, left⟩ := holds_cons.1 known
      unfold Call.fillDefaults
      split
      · next v found =>
        have value : h.Holds v := by
          rcases Option.or_eq_some_iff.1 found with given | ⟨-, missing⟩
          · exact first v given
          · exact default v missing
        exact (ih others left).exceptBind fun rest known =>
          holds_ok.2 (holds_cons.2 ⟨⟨trivial, value⟩, known⟩)
      · exact holds_error _

theorem holds_bindArguments {f : FunctionObject} (held : h.Holds f) (known : h.Holds args) :
    h.Holds (Call.bindArguments f args) := by
  have filled (keywords : List (String × Value)) (given : h.Holds keywords) {slots : List Call.Slot}
      (start : h.Holds slots) : h.Holds
        (keywords.foldlM (fun slots k => Call.fillKeyword f.name k.1 k.2 slots) slots) := by
    induction keywords generalizing slots with
    | nil => exact holds_ok.2 start
    | cons k keywords ih =>
      obtain ⟨first, others⟩ := holds_cons.1 given
      exact (holds_fillKeyword _ _ first.2 start).exceptBind fun slots now => ih others now
  have rest := (filled args.keywords known.2 (holds_fillPositional f.parameters known.1)).exceptBind
    fun slots now => holds_fillDefaults f.name now held.1
  unfold Call.bindArguments
  split
  · exact holds_error _
  · exact rest

/-! ## Names -/

variable {frame : Frame}

theorem Holds.closure (held : h.Holds frame) : h.Holds frame.closure := by
  cases frame with
  | module echo => exact holds_none
  | function scope globals => exact holds_some.2 held
  | classBody scope around => exact held.2

end Heap

/-- What a name stands for is held by the heap. -/
theorem Machine.Sound.holds_find? {m : Machine} (sound : m.Sound) (frame : Frame) (name : String) :
    m.heap.Holds (frame.find? m name) := by
  intro v found
  rcases Option.or_eq_some_iff.1 found with nearby | ⟨-, outside⟩
  · obtain ⟨scope, -, bound⟩ := Option.bind_eq_some_iff.1 nearby
    exact sound.heap.holds_findInScope? name _ scope v bound
  · rcases Option.or_eq_some_iff.1 outside with global | ⟨-, builtIn⟩
    · exact sound.globals.get? name v global
    · exact sound.builtins.get? name v builtIn

namespace Eval

variable {h : Heap} {frame : Frame}

namespace Safe

theorem lookup (frame : Frame) (name : String) : Safe h (frame.lookup name) := by
  refine SafeWith.bind_get fun m onward => ?_
  have known := onward.sound.holds_find? frame name
  cases found : frame.find? m name with
  | none => exact .fail _
  | some v => exact pure (known v found)

theorem assign (frame : Frame) (name : String) {v : Value} (value : h.Holds v) :
    Safe h (frame.assign name v) := by
  unfold Frame.assign
  split
  · exact changeScope _ fun h' ages b held => held.set name (value.aged ages)
  · refine modify (fun _ => rfl) (fun m onward => ?_) fun m onward => onward.sound.builtins
    exact onward.sound.globals.set name (value.aged onward.ages)

theorem delete (frame : Frame) (name : String) : Safe h (frame.delete name) := by
  unfold Frame.delete
  split
  · refine SafeWith.bind_ask fun h' _ _ => ?_
    split
    · exact changeScope _ fun _ _ b held => held.erase name
    · exact .fail _
  · refine SafeWith.bind_get fun m _ => ?_
    split
    · exact modify (fun _ => rfl) (fun m onward => onward.sound.globals.erase name)
        fun m onward => onward.sound.builtins
    · exact .fail _

end Safe

/-! ## Blocks and loops -/

theorem Safe.block {α : Type} {exec : α → Eval Flow} {body : List α}
    (each : ∀ s ∈ body, Safe h (exec s)) : Safe h (Flow.block exec body) := by
  induction body generalizing h with
  | nil => exact Safe.pure trivial
  | cons s body ih =>
    refine .of_sound fun sound => Safe.bind (each s (by simp)) fun h' flow ages known => ?_
    cases flow with
    | normal => exact ih fun s mem => (each s (List.mem_cons_of_mem _ mem)).aged sound ages
    | «break» | «continue» | «return» v => exact Safe.pure known

theorem Safe.whileLoop {test : Eval Bool} {body orelse : Eval Flow} (tests : Safe h test)
    (runs : Safe h body) (ends : Safe h orelse) (steps : Nat) :
    Safe h (Flow.whileLoop test body orelse steps) := by
  induction steps generalizing h with
  | zero => exact .exhausted
  | succ steps ih =>
    refine .of_sound fun sound => Safe.bind tests fun h' holds ages _ => .of_sound fun sound' => ?_
    split
    · refine Safe.bind (runs.aged sound ages) fun h'' flow later known => ?_
      have on := ages.trans later
      cases flow with
      | «break» => exact Safe.pure trivial
      | «return» v => exact Safe.pure known
      | normal | «continue» => exact ih (tests.aged sound on) (runs.aged sound on) (ends.aged sound on)
    · exact ends.aged sound ages

theorem Safe.forLoop {assign : Value → Eval Unit} {body orelse : Eval Flow} {vs : List Value}
    (assigns : ∀ v ∈ vs, Safe h (assign v)) (runs : Safe h body) (ends : Safe h orelse) :
    Safe h (Flow.forLoop assign body orelse vs) := by
  induction vs generalizing h with
  | nil => exact ends
  | cons v vs ih =>
    refine .of_sound fun sound => Safe.bind (assigns v (by simp)) fun h' _ ages _ => ?_
    refine Safe.bind (runs.aged sound ages) fun h'' flow later known => ?_
    have on := ages.trans later
    cases flow with
    | «break» => exact Safe.pure trivial
    | «return» v => exact Safe.pure known
    | normal | «continue» =>
      refine ih (fun v mem => ?_) (runs.aged sound on) (ends.aged sound on)
      exact (assigns v (List.mem_cons_of_mem _ mem)).aged sound on

/-! ## Calls -/

/-- The depth of calls says nothing about the heap. -/
theorem SafeWith.deeper {α : Type} {P : Heap → α → Prop} {x : Eval α} (safe : SafeWith h P x) :
    SafeWith h P (Call.deeper x) := by
  have level {h : Heap} {m : Machine} (onward : Onward h m) (depth : Nat) : Onward h { m with depth } :=
    ⟨onward.sound.prepared _ _ depth, onward.ages⟩
  intro sound m onward
  rw [Call.deeper_eq]
  split
  · exact .refl onward.sound
  · have ends := safe sound _ (level onward (m.depth + 1))
    cases run : x { m with depth := m.depth + 1 } with
    | ok a m' =>
      rw [run] at ends
      exact ⟨level ends.1 _, ends.2⟩
    | error stop m' =>
      rw [run] at ends
      exact level ends _

theorem Safe.function {run : Frame → List Statement → Eval Flow} {args : Arguments}
    (runs : ∀ {h : Heap} {frame : Frame} body, h.Holds frame → Safe h (run frame body))
    (r : Ref .func) (held : h.Holds args) : Safe h (Call.function run r args) := by
  refine SafeWith.bind_ask fun h' ages sound => ?_
  have known := sound.holds_function r
  refine Safe.bind (.ofFault (Heap.holds_bindArguments known (held.aged ages))) ?_
  intro h'' bindings ages' bound
  have body : Safe h'' (do
      let scope ← Eval.newScope bindings (h'.function r).closure
      run (.function scope (allDeclaredGlobals (h'.function r).body)) (h'.function r).body) :=
    Safe.bind (.newScope bound (known.2.aged ages')) fun _ scope _ there => runs _ there
  refine Safe.bind (SafeWith.deeper body) fun _ flow _ ended => ?_
  cases flow with
  | «return» v => exact Safe.pure ended
  | normal | «break» | «continue» => exact Safe.pure trivial

theorem Safe.instantiate {call : Value → Arguments → Eval Value} {args : Arguments} {r : Ref .cls}
    (calls : ∀ {h : Heap} {v : Value} {args : Arguments}, h.Holds v → h.Holds args →
      Safe h (call v args)) (known : h.Holds r) (held : h.Holds args) :
    Safe h (Call.instantiate call r args) := by
  refine Safe.bind (.newInstance known) fun h' object ages made => ?_
  refine SafeWith.bind_ask fun h'' ages' sound => ?_
  have there := made.aged ages'
  have given := held.aged (ages.trans ages')
  have found := sound.holds_classAttr? r "__init__"
  dsimp only
  split
  · next init bound =>
    have full : h''.Holds { args with positional := .instance object :: args.positional } :=
      ⟨Heap.holds_cons.2 ⟨there, given.1⟩, given.2⟩
    refine Safe.bind (calls (found _ bound) full) fun _ result later _ => ?_
    exact SafeWith.check (Safe.pure (there.aged later))
  · next initialiser bound =>
    refine Safe.bind (Safe.discard (calls (found _ bound) given)) fun _ _ later _ => ?_
    exact Safe.pure (there.aged later)
  · split
    · refine SafeWith.bind_ask fun _ _ _ => ?_
      exact SafeWith.bind (P := fun _ _ => False) (.fail _) fun _ _ _ never => never.elim
    · exact Safe.pure there

theorem SafeCaller.exception {caller : Caller} (safe : SafeCaller caller) (kind : ExceptionKind)
    {args : Arguments} (held : h.Holds args) : Safe h (Call.exception caller kind args) := by
  refine Safe.bind (.ofFault (held.withoutKeywords _)) fun h' given _ known => ?_
  dsimp only
  split
  · exact Safe.newException _ _
  · exact Safe.bind (safe.str (Heap.holds_cons.1 known).1) fun _ _ _ _ => Safe.newException _ _
  · refine Safe.bind (.newTuple known.toArray) fun _ _ _ made => ?_
    exact Safe.bind (safe.repr made) fun _ _ _ _ => Safe.newException _ _

/-! ## Statements of a frame -/

/-- What the statements of a frame are put together from is safe wherever the frame is. -/
structure SafeParts (frame : Frame) (eval : Expr → Eval Value) (caller : Caller) : Prop where
  eval : ∀ {h : Heap}, h.Holds frame → ∀ e, Safe h (eval e)
  caller : SafeCaller caller

namespace SafeParts

variable {eval : Expr → Eval Value} {caller : Caller}

/-! ### Targets -/

mutual

theorem assignTo (parts : SafeParts frame eval caller) {h : Heap} (held : h.Holds frame) {v : Value}
    (value : h.Holds v) : ∀ target : Expr, Safe h (Target.assign eval frame target v)
  | .name id => .assign frame id value
  | .attribute object name =>
    Safe.bind (parts.eval held object) fun _ _ ages _ => Safe.setAttr name (value.aged ages)
  | .subscript object index =>
    Safe.bind (parts.eval held object) fun _ object ages _ =>
      Safe.bind (parts.eval (held.aged ages) index) fun _ _ later known =>
        Safe.setItem object known (value.aged (ages.trans later))
  | .tuple targets | .list targets =>
    Safe.bind (.items v) fun _ _ ages known => SafeWith.bind (.fault _) fun _ _ later _ =>
      parts.assignAll (held.aged (ages.trans later)) (known.toList.aged later) targets
  | .int _ | .float _ | .str _ | .bool _ | .none | .dict _ | .unary _ _
  | .binary _ _ _ | .connect _ _ _ | .compare _ _ | .choose _ _ _ | .call _ _ _ => .fail _

theorem assignAll (parts : SafeParts frame eval caller) {h : Heap} (held : h.Holds frame)
    {vs : List Value} (values : h.Holds vs) : ∀ targets : List Expr,
      Safe h (Target.assignAll eval frame targets vs)
  | [] => Safe.pure trivial
  | t :: ts => by
    cases vs with
    | nil => exact Safe.pure trivial
    | cons v vs =>
      obtain ⟨first, others⟩ := Heap.holds_cons.1 values
      exact Safe.bind (parts.assignTo held first t) fun _ _ ages _ =>
        parts.assignAll (held.aged ages) (others.aged ages) ts

end

mutual

theorem deleteFrom (parts : SafeParts frame eval caller) {h : Heap} (held : h.Holds frame) :
    ∀ target : Expr, Safe h (Target.delete eval caller frame target)
  | .name id => .delete frame id
  | .attribute object name => Safe.bind (parts.eval held object) fun _ _ _ _ => Safe.deleteAttr _ name
  | .subscript object index =>
    Safe.bind (parts.eval held object) fun _ object ages _ =>
      Safe.bind (parts.eval (held.aged ages) index) fun _ _ _ known =>
        parts.caller.deleteItem object known
  | .tuple targets | .list targets => parts.deleteAll held targets
  | .int _ | .float _ | .str _ | .bool _ | .none | .dict _ | .unary _ _
  | .binary _ _ _ | .connect _ _ _ | .compare _ _ | .choose _ _ _ | .call _ _ _ => .fail _

theorem deleteAll (parts : SafeParts frame eval caller) {h : Heap} (held : h.Holds frame) :
    ∀ targets : List Expr, Safe h (Target.deleteAll eval caller frame targets)
  | [] => Safe.pure trivial
  | t :: ts => Safe.bind (parts.deleteFrom held t) fun _ _ ages _ =>
      parts.deleteAll (held.aged ages) ts

end

variable (parts : SafeParts frame eval caller) (held : h.Holds frame)
include parts held

theorem augment (op : BinaryOp) (target operand : Expr) :
    Safe h (Target.augment eval caller frame op target operand) := by
  have result {h : Heap} {current : Value} (held : h.Holds frame) (known : h.Holds current) :
      Safe h (do Eval.augment caller op current (← eval operand)) :=
    Safe.bind (parts.eval held operand) fun _ v ages operand =>
      parts.caller.augment op (known.aged ages) operand
  unfold Target.augment
  split
  · refine Safe.bind (.lookup _ _) fun _ current ages known => ?_
    exact Safe.bind (result (held.aged ages) known) fun _ v _ made => Safe.assign _ _ made
  · refine Safe.bind (parts.eval held _) fun _ object ages there => ?_
    refine Safe.bind (.getAttr there _) fun _ current later known => ?_
    exact Safe.bind (result (held.aged (ages.trans later)) known) fun _ v _ made => Safe.setAttr _ made
  · refine Safe.bind (parts.eval held _) fun _ object ages there => ?_
    refine Safe.bind (parts.eval (held.aged ages) _) fun _ index ages' place => ?_
    refine Safe.bind (parts.caller.getItem object place) fun _ current later known => ?_
    refine Safe.bind (result (held.aged (ages.trans (ages'.trans later))) known) fun _ v last made => ?_
    exact Safe.setItem object (place.aged (later.trans last)) made
  · exact .fail _

/-! ### Simple statements -/

omit held in
theorem echo {v : Value} (value : h.Holds v) : Safe h (Simple.echo caller v) := by
  unfold Simple.echo
  split
  · refine Safe.bind (parts.caller.repr value) fun _ text ages _ => ?_
    refine Safe.bind (.write _) fun _ _ ages' _ => ?_
    refine Safe.modify (fun _ => rfl) (fun m onward => onward.sound.globals) fun m onward => ?_
    exact onward.sound.builtins.set "_" (value.aged (ages.trans (ages'.trans onward.ages)))
  · exact Safe.pure trivial

theorem assertionMessage (message : Option Expr) :
    Safe h (Simple.assertionMessage eval caller message) := by
  cases message with
  | none => exact Safe.pure trivial
  | some e => exact Safe.bind (parts.eval held e) fun _ _ _ known => parts.caller.str known

theorem simple (s : Simple) : Safe h (s.exec eval caller frame) := by
  have normal {h : Heap} : Safe h (Pure.pure Flow.normal) := Safe.pure trivial
  cases s with
  | expr e =>
    refine Safe.bind (parts.eval held e) fun _ v _ known => ?_
    dsimp only
    split
    · exact Safe.bind (parts.echo known) fun _ _ _ _ => normal
    · exact normal
  | assign targets e =>
    refine Safe.bind (parts.eval held e) fun _ v ages known => ?_
    refine Safe.bind (.forM fun t _ => parts.assignTo (held.aged ages) known t) ?_
    exact fun _ _ _ _ => normal
  | augment target op e => exact Safe.bind (parts.augment held op target e) fun _ _ _ _ => normal
  | pass => exact normal
  | «global» names => exact normal
  | «break» => exact Safe.pure trivial
  | «continue» => exact Safe.pure trivial
  | «return» e =>
    cases e with
    | none => exact Safe.pure trivial
    | some e => exact Safe.bind (parts.eval held e) fun _ v _ known => Safe.pure known
  | raise e =>
    cases e with
    | none => exact .fail _
    | some e => exact Safe.bind (parts.eval held e) fun _ v _ _ => SafeWith.bind_ask fun _ _ _ => .throw _
  | assert test message =>
    refine Safe.bind (parts.eval held test) fun _ v ages _ => Safe.bind (.isTrue v) fun _ passed later _ => ?_
    split
    · exact normal
    · refine Safe.bind (parts.assertionMessage (held.aged (ages.trans later)) message) ?_
      exact fun _ _ _ _ => .fail _
  | delete targets => exact Safe.bind (parts.deleteAll held targets) fun _ _ _ _ => normal
  | importModules names => exact .fail _
  | importNames module names =>
    dsimp only [Simple.exec]
    split
    · exact normal
    · exact .fail _

/-! ### Parts of expressions and definitions -/

theorem chain (left : Value) (links : List (Comparison × Expr)) :
    Safe h (Evaluator.chain eval left links) := by
  induction links generalizing h left with
  | nil => exact Safe.pure trivial
  | cons link rest ih =>
    obtain ⟨op, e⟩ := link
    refine Safe.bind (parts.eval held e) fun _ right ages _ => ?_
    refine Safe.bind (.compare op left right) fun _ holds later _ => ?_
    split
    · exact ih (held.aged (ages.trans later)) right
    · exact Safe.pure trivial

theorem bases (es : List Expr) : Safe h (Evaluator.bases eval es) := by
  refine Safe.mapM fun e _ => Safe.bind (parts.eval held e) fun _ v _ known => ?_
  split
  · exact Safe.pure known
  · exact .fail _

theorem defaults (ps : List Parameter) :
    SafeWith h (fun h' values => h'.Holds values.1) (Evaluator.defaults eval ps) := by
  induction ps with
  | nil => exact SafeWith.pure fun _ _ _ => Heap.holds_nil
  | cons p ps ih =>
    have first : Safe h (p.default.mapM eval) := by
      cases p.default with
      | none => exact Safe.pure Heap.holds_none
      | some e =>
        change Safe h (some <$> eval e)
        rw [map_eq_pure_bind]
        exact Safe.bind (parts.eval held e) fun _ v _ known => Safe.pure (Heap.holds_some.2 known)
    refine .of_sound fun sound => first.bind fun _ d ages value => ?_
    refine SafeWith.bind (ih.aged sound ages) fun _ others ages' values => ?_
    exact SafeWith.pure fun _ ages'' _ =>
      Heap.holds_cons.2 ⟨value.aged (ages'.trans ages''), values.aged ages''⟩

theorem makeFunction (name : String) (ps : List Parameter) (body : List Statement) :
    Safe h (Evaluator.makeFunction eval frame name ps body) := by
  refine SafeWith.bind (parts.defaults held ps) fun _ defaults ages known => ?_
  exact Safe.newFunction ⟨known, held.closure.aged ages⟩

/-- A display puts its entries in one after the other. -/
theorem entries (es : List (Expr × Expr)) :
    SafeWith h (fun h' all => h'.HoldsMap all) (es.foldlM (Evaluator.entry eval) #[]) := by
  refine .foldlM (fun sound ages now => now.aged sound.layered ages) .empty ?_
  intro e _ h₀ done ages good
  refine .of_sound fun sound => Safe.bind (parts.eval (held.aged ages) e.1) fun h₁ key ages₁ known => ?_
  refine Safe.bind (parts.eval (held.aged (ages.trans ages₁)) e.2) fun h₂ v ages₂ value => ?_
  refine SafeWith.bind (.checkHashable (known.aged ages₂)) fun h₃ _ ages₃ isKey => ?_
  exact .insertInto (good.aged sound.layered (ages₁.trans (ages₂.trans ages₃))) isKey (value.aged ages₃)

theorem makeClass {run : Frame → List Statement → Eval Flow}
    (runs : ∀ {h : Heap} {frame : Frame} body, h.Holds frame → Safe h (run frame body))
    (name : String) (es : List Expr) (body : List Statement) :
    Safe h (Evaluator.makeClass eval run frame name es body) := by
  refine Safe.bind (parts.bases held es) fun _ bases ages known => ?_
  have around := held.closure.aged ages
  have nothing {h : Heap} : h.Holds ([] : Bindings) := Heap.holds_nil
  refine Safe.bind (.newScope nothing around) fun _ scope ages₁ made => ?_
  refine Safe.bind (Safe.discard (runs body ⟨made, around.aged ages₁⟩)) fun _ _ ages₂ _ => ?_
  refine SafeWith.bind_ask fun h' ages₃ sound => Safe.newClass ⟨?_, (sound.holds_scope scope).1⟩
  exact known.aged (ages₁.trans (ages₂.trans ages₃))

end SafeParts

end Eval

/-! ## One layer on top of another -/

namespace Layer

open Eval

/-- The evaluations of a layer are safe. -/
structure Safe (l : Layer) : Prop where
  eval : ∀ {h : Heap} {frame : Frame}, h.Holds frame → ∀ e, Eval.Safe h (l.eval frame e)
  call : ∀ {h : Heap} {v : Value} {args : Arguments}, h.Holds v → h.Holds args →
    Eval.Safe h (l.call v args)
  exec : ∀ {h : Heap} {frame : Frame}, h.Holds frame → ∀ s, Eval.Safe h (l.exec frame s)

namespace Safe

variable {below : Layer} {h : Heap} {frame : Frame} {steps : Nat}
  {run : Frame → List Statement → Eval Flow}

theorem none : Layer.none.Safe :=
  ⟨fun _ _ => .exhausted, fun _ _ => .exhausted, fun _ _ => .exhausted⟩

theorem block (safe : below.Safe) (body : List Statement) (held : h.Holds frame) :
    Eval.Safe h (below.block frame body) :=
  Eval.Safe.block fun s _ => safe.exec held s

theorem parts (safe : below.Safe) (frame : Frame) (steps : Nat) :
    SafeParts frame (below.eval frame) ⟨below.call, steps⟩ :=
  ⟨fun held => safe.eval held, ⟨safe.call⟩⟩

theorem next_eval (safe : below.Safe) (held : h.Holds frame) (e : Expr) :
    Eval.Safe h ((below.next steps run).eval frame e) := by
  have parts := safe.parts frame steps
  have each {h : Heap} (held : h.Holds frame) (es : List Expr) :
      Eval.Safe h (es.mapM (below.eval frame)) := Eval.Safe.mapM fun e _ => safe.eval held e
  cases e with
  | name id => exact .lookup frame id
  | int _ | float _ | str _ | bool _ | none => exact Eval.Safe.pure trivial
  | list items => exact (each held items).bind fun _ _ _ known => Eval.Safe.newList known.toArray
  | tuple items => exact (each held items).bind fun _ _ _ known => Eval.Safe.newTuple known.toArray
  | dict entries => exact (parts.entries held entries).bind fun _ _ _ good => Eval.Safe.newDict good
  | unary op operand =>
    exact (safe.eval held operand).bind fun _ v _ _ => Eval.Safe.unary op v
  | binary op left right =>
    refine (safe.eval held left).bind fun _ a ages _ => ?_
    exact (safe.eval (held.aged ages) right).bind fun _ b _ known => parts.caller.binary op a known
  | connect op left right =>
    refine (safe.eval held left).bind fun _ a ages known => ?_
    refine (Eval.Safe.isTrue a).bind fun _ truth later _ => ?_
    split
    · exact Eval.Safe.pure (known.aged later)
    · exact safe.eval (held.aged (ages.trans later)) right
  | compare left links =>
    refine (safe.eval held left).bind fun _ a ages _ => ?_
    exact (parts.chain (held.aged ages) a links).bind fun _ _ _ _ => Eval.Safe.pure trivial
  | choose test body orelse =>
    refine (safe.eval held test).bind fun _ v ages _ => ?_
    refine (Eval.Safe.isTrue v).bind fun _ truth later _ => ?_
    have there := held.aged (ages.trans later)
    split
    · exact safe.eval there body
    · exact safe.eval there orelse
  | call callee args keywords =>
    refine (safe.eval held callee).bind fun _ f ages known => ?_
    refine (each (held.aged ages) args).bind fun _ positional ages₁ given => ?_
    have there := held.aged (ages.trans ages₁)
    refine Eval.Safe.bind (Eval.Safe.mapM fun k _ => ?_) fun _ named ages₂ named' => ?_
    · exact (safe.eval there k.2).bind fun _ v _ value => Eval.Safe.pure ⟨trivial, value⟩
    · exact safe.call (known.aged (ages₁.trans ages₂)) ⟨given.aged ages₂, named'⟩
  | «attribute» object name =>
    exact (safe.eval held object).bind fun _ _ _ known => Eval.Safe.getAttr known name
  | subscript object index =>
    refine (safe.eval held object).bind fun _ v ages _ => ?_
    exact (safe.eval (held.aged ages) index).bind fun _ i _ known => parts.caller.getItem v known

theorem next_call (safe : below.Safe)
    (runs : ∀ {h : Heap} {frame : Frame} body, h.Holds frame → Eval.Safe h (run frame body))
    {callee : Value} {args : Arguments} (known : h.Holds callee) (held : h.Holds args) :
    Eval.Safe h ((below.next steps run).call callee args) := by
  have caller : SafeCaller ⟨below.call, steps⟩ := ⟨safe.call⟩
  cases callee with
  | function r => exact .function runs r held
  | boundMethod receiver r =>
    exact .function runs r ⟨Heap.holds_cons.2 ⟨known.1, held.1⟩, held.2⟩
  | builtin b => exact caller.builtin b held
  | listMethod r m => exact caller.listMethod r m held
  | strMethod s m => exact caller.strMethod s m held
  | dictMethod r m => exact caller.dictMethod r m held
  | cls r => exact .instantiate safe.call known held
  | exceptionType kind => exact caller.exception kind held
  | none | bool _ | int _ | float _ | str _ | list _ | tuple _ | dict _ | «instance» _
  | exception _ => exact .fail _

theorem next_exec (safe : below.Safe)
    (runs : ∀ {h : Heap} {frame : Frame} body, h.Holds frame → Eval.Safe h (run frame body))
    (held : h.Holds frame) (s : Statement) :
    Eval.Safe h ((below.next steps run).exec frame s) := by
  have parts := safe.parts frame steps
  have normal {h : Heap} : Eval.Safe h (Pure.pure Flow.normal) := Eval.Safe.pure trivial
  refine SafeWith.located s.line ?_
  cases s with
  | simple line action => exact parts.simple held action
  | ifElse line test body orelse =>
    refine (safe.eval held test).bind fun _ v ages _ => ?_
    refine (Eval.Safe.isTrue v).bind fun _ holds later _ => ?_
    have there := held.aged (ages.trans later)
    split
    · exact safe.block body there
    · exact safe.block orelse there
  | whileLoop line test body orelse =>
    refine Eval.Safe.whileLoop ?_ (safe.block body held) (safe.block orelse held) steps
    exact (safe.eval held test).bind fun _ v _ _ => Eval.Safe.isTrue v
  | forLoop line target iterable body orelse =>
    refine (safe.eval held iterable).bind fun _ v ages _ => ?_
    refine (Eval.Safe.items v).bind fun _ values later known => ?_
    have there := held.aged (ages.trans later)
    refine Eval.Safe.forLoop (fun v mem => ?_) (safe.block body there) (safe.block orelse there)
    exact parts.assignTo there (known.toList v mem) target
  | function line name parameters body =>
    refine (parts.makeFunction held name parameters body).bind fun _ f _ made => ?_
    exact (Eval.Safe.assign frame name made).bind fun _ _ _ _ => normal
  | classBody line name bases body =>
    refine (parts.makeClass held runs name bases body).bind fun _ c _ made => ?_
    exact (Eval.Safe.assign frame name made).bind fun _ _ _ _ => normal

theorem ofSteps (steps : Nat) : (Layer.ofSteps steps).Safe := by
  induction steps with
  | zero => exact none
  | succ steps ih =>
    rw [ofSteps_succ]
    exact ⟨ih.next_eval, ih.next_call ih.block, ih.next_exec ih.block⟩

end Safe

end Layer

/-! ## Running units -/

namespace Machine

variable {m : Machine}

/-- A safe evaluation leaves a sound machine behind, however it ends. -/
theorem Sound.left {α : Type} {P : Heap → α → Prop} {x : Eval α} (sound : m.Sound)
    (safe : Eval.SafeWith m.heap P x) : (x.left m).Sound :=
  (safe sound.heap m (.refl sound)).left.sound

theorem Reached.sound (reached : m.Reached) : m.Sound := by
  refine reached.keeps .fresh (fun _ _ _ _ sound => sound.prepared _ _ _) ?_
  intro source mode p _ m steps echo sound
  have top : m.heap.Holds (Frame.module echo) := trivial
  exact sound.left (Eval.Safe.discard ((Layer.Safe.ofSteps steps).block p.body top))

/-- The machines between two units, and those that come up while a unit runs: where a body is entered
with a scope of its own, and behind what is evaluated, called or executed there. -/
inductive Underway : Machine → Prop
  | between {m : Machine} (reached : m.Reached) : Underway m
  | entered {m : Machine} {vars : Bindings} {parent : Option (Ref .scope)} (depth : Nat)
    (bound : m.heap.Holds vars) (around : m.heap.Holds parent) :
    Underway m → Underway ((Eval.newScope vars parent).left { m with depth })
  | evaluated {m : Machine} {frame : Frame} (steps : Nat) (e : Expr) (held : m.heap.Holds frame) :
    Underway m → Underway ((Evaluator.eval steps frame e).left m)
  | called {m : Machine} {callee : Value} {args : Arguments} (steps : Nat)
    (known : m.heap.Holds callee) (held : m.heap.Holds args) :
    Underway m → Underway ((Evaluator.call steps callee args).left m)
  | executed {m : Machine} {frame : Frame} (steps : Nat) (s : Statement)
    (held : m.heap.Holds frame) :
    Underway m → Underway ((Evaluator.exec steps frame s).left m)

theorem Underway.sound (underway : m.Underway) : m.Sound := by
  induction underway with
  | between reached => exact reached.sound
  | entered depth bound around _ ih =>
    exact (ih.prepared _ _ depth).left (Eval.Safe.newScope bound around)
  | evaluated steps e held _ ih => exact ih.left ((Layer.Safe.ofSteps steps).eval held e)
  | called steps known held _ ih => exact ih.left ((Layer.Safe.ofSteps steps).call known held)
  | executed steps s held _ ih => exact ih.left ((Layer.Safe.ofSteps steps).exec held s)

end Machine

end Console
