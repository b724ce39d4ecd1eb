import Console.Proofs.Machine
import Mathlib.Tactic.Common

/-!
# Evaluations that agree

Two evaluations agree where they do the same on all machines of a kind, and leave such a machine
behind. What is put together in the same way from evaluations that agree agrees as well. An evaluation
that agrees with itself keeps the kind of machine that it is run on.
-/

namespace Console

namespace Eval

variable {α β γ : Type} {I : Machine → Prop} {Q : α → Prop} {Q' : β → Prop}

/-- What an evaluation leaves behind: a machine of the kind `I`, and a value with the property `Q` if
it yields one. -/
def Leaves (I : Machine → Prop) (Q : α → Prop) : EStateM.Result Stop Machine α → Prop
  | .ok a m => Q a ∧ I m
  | .error _ m => I m

/-- The evaluations do the same on a machine of the kind `I`, leave one behind, and yield values with
the property `Q`. -/
def AgreeWith (I : Machine → Prop) (Q : α → Prop) (x y : Eval α) : Prop :=
  ∀ m, I m → x m = y m ∧ Leaves I Q (x m)

/-- The evaluations agree, whatever they yield. -/
abbrev Agree (I : Machine → Prop) (x y : Eval α) : Prop := AgreeWith I (fun _ => True) x y

namespace AgreeWith

variable {x y : Eval α} {f g : α → Eval β}

theorem mono {P : α → Prop} (h : AgreeWith I P x y) (weaker : ∀ a, P a → Q a) :
    AgreeWith I Q x y := by
  intro m kind
  obtain ⟨same, left⟩ := h m kind
  refine ⟨same, ?_⟩
  cases run : x m with
  | ok a m' =>
    rw [run] at left
    exact ⟨weaker a left.1, left.2⟩
  | error stop m' =>
    rw [run] at left
    exact left

theorem agree (h : AgreeWith I Q x y) : Agree I x y := h.mono fun _ _ => trivial

theorem pure {a : α} (value : Q a) : AgreeWith I Q (Pure.pure a) (Pure.pure a) :=
  fun _ kind => ⟨rfl, value, kind⟩

theorem throw (stop : Stop) : AgreeWith I Q (MonadExcept.throw stop) (MonadExcept.throw stop) :=
  fun _ kind => ⟨rfl, kind⟩

theorem bind (first : AgreeWith I Q x y) (next : ∀ a, Q a → AgreeWith I Q' (f a) (g a)) :
    AgreeWith I Q' (x >>= f) (y >>= g) := by
  intro m kind
  obtain ⟨same, left⟩ := first m kind
  cases run : x m with
  | error stop m' =>
    rw [run] at same left
    simp only [Bind.bind, EStateM.bind, run, ← same]
    exact ⟨trivial, left⟩
  | ok a m' =>
    rw [run] at same left
    simp only [Bind.bind, EStateM.bind, run, ← same]
    exact next a left.1 m' left.2

/-- A step that reads off the machine, and changes it or not. -/
theorem of_eq (step : Machine → α × Machine) (run : ∀ m, x m = .ok (step m).1 (step m).2)
    (value : ∀ m, I m → Q (step m).1) (kept : ∀ m, I m → I (step m).2) : AgreeWith I Q x x := by
  intro m kind
  refine ⟨rfl, ?_⟩
  rw [run]
  exact ⟨value m kind, kept m kind⟩

theorem ask {question : Heap → α} (answer : ∀ m, I m → Q (question m.heap)) :
    AgreeWith I Q (Eval.ask question) (Eval.ask question) :=
  of_eq (fun m => (question m.heap, m)) (fun _ => rfl) answer fun _ kind => kind

/-- A check comes before the rest. -/
theorem check {c : Prop} [Decidable c] {f : Fault} (h : AgreeWith I Q x y) :
    AgreeWith I Q (if c then Eval.fail f >>= fun _ : PUnit => x else x)
      (if c then Eval.fail f >>= fun _ : PUnit => y else y) := by
  split
  · exact bind (Q := fun _ => True) (throw _) fun _ _ => h
  · exact h

theorem located (line : Nat) (h : AgreeWith I Q x y) :
    AgreeWith I Q (Eval.located line x) (Eval.located line y) := by
  intro m kind
  obtain ⟨same, left⟩ := h m kind
  simp only [Eval.located, ← same]
  refine ⟨trivial, ?_⟩
  cases run : x m with
  | ok a m' =>
    rw [run] at left
    exact left
  | error stop m' =>
    rw [run] at left
    cases stop <;> exact left

end AgreeWith

namespace Agree

variable {x y : Eval α} {f g : α → Eval β}

theorem bind (first : Agree I x y) (next : ∀ a, Agree I (f a) (g a)) :
    Agree I (x >>= f) (y >>= g) :=
  AgreeWith.bind first fun a _ => next a

@[simp] theorem pure (a : α) : Agree I (Pure.pure a) (Pure.pure a) := AgreeWith.pure trivial

@[simp] theorem throw (stop : Stop) :
    Agree (α := α) I (MonadExcept.throw stop) (MonadExcept.throw stop) := AgreeWith.throw stop

@[simp] theorem fail (f : Fault) : Agree (α := α) I (Eval.fail f) (Eval.fail f) :=
  AgreeWith.throw _

@[simp] theorem exhausted : Agree (α := α) I Eval.exhausted Eval.exhausted := AgreeWith.throw _

@[simp] theorem ask (question : Heap → α) : Agree I (Eval.ask question) (Eval.ask question) :=
  AgreeWith.ask fun _ _ => trivial

@[simp] theorem get : Agree I MonadState.get MonadState.get :=
  AgreeWith.of_eq (fun m => (m, m)) (fun _ => rfl) (fun _ _ => trivial) fun _ kind => kind

theorem attempt (h : Agree I x y) : Agree I (Eval.attempt x) (Eval.attempt y) := by
  intro m kind
  obtain ⟨same, left⟩ := h m kind
  simp only [Eval.attempt, ← same]
  refine ⟨trivial, ?_⟩
  cases run : x m with
  | ok a m' =>
    rw [run] at left
    exact left
  | error stop m' =>
    rw [run] at left
    cases stop with
    | raised e => exact ⟨trivial, left⟩
    | exhausted | crashed => exact left

@[simp] theorem ofExcept (r : Except Exception α) : Agree I (Eval.ofExcept r) (Eval.ofExcept r) := by
  cases r <;> simp [Eval.ofExcept]

@[simp] theorem ofFault (r : Except Fault α) : Agree I (Eval.ofFault r) (Eval.ofFault r) := by
  cases r <;> simp [Eval.ofFault]

@[simp] theorem ofDepth (r : Option α) : Agree I (Eval.ofDepth r) (Eval.ofDepth r) := by
  cases r <;> simp [Eval.ofDepth]

@[simp] theorem ofUnchecked (r : Option α) :
    Agree I (Eval.ofUnchecked r) (Eval.ofUnchecked r) := by
  cases r <;> simp [Eval.ofUnchecked]

theorem discard (h : Agree I x y) : Agree I (Functor.discard x) (Functor.discard y) := by
  have same (z : Eval α) : Functor.discard z = z >>= fun _ => Pure.pure PUnit.unit := by
    rw [← map_eq_pure_bind]
    rfl
  rw [same, same]
  exact h.bind fun _ => pure _

theorem mapM_of_mem {as : List α} (each : ∀ a ∈ as, Agree I (f a) (g a)) :
    Agree I (as.mapM f) (as.mapM g) := by
  induction as with
  | nil => exact pure []
  | cons a as ih =>
    obtain ⟨first, others⟩ := List.forall_mem_cons.1 each
    rw [List.mapM_cons, List.mapM_cons]
    exact first.bind fun b => (ih others).bind fun bs => pure (b :: bs)

theorem mapM (each : ∀ a, Agree I (f a) (g a)) (as : List α) : Agree I (as.mapM f) (as.mapM g) :=
  mapM_of_mem fun a _ => each a

theorem forM {f g : α → Eval PUnit} (each : ∀ a, Agree I (f a) (g a)) (as : List α) :
    Agree I (as.forM f) (as.forM g) := by
  induction as with
  | nil => exact pure PUnit.unit
  | cons a as ih => exact (each a).bind fun _ => ih

theorem foldlM {f g : β → α → Eval β} (each : ∀ b a, Agree I (f b a) (g b a)) (b : β) (as : List α) :
    Agree I (as.foldlM f b) (as.foldlM g b) := by
  induction as generalizing b with
  | nil => exact pure b
  | cons a as ih => exact (each b a).bind fun b => ih b

theorem arrayMapM (each : ∀ a, Agree I (f a) (g a)) (as : Array α) :
    Agree I (as.mapM f) (as.mapM g) := by
  rw [Array.mapM_eq_mapM_toList, Array.mapM_eq_mapM_toList]
  exact (mapM each as.toList).bind fun bs => pure bs.toArray

theorem arrayFoldlM {f g : β → α → Eval β} (each : ∀ b a, Agree I (f b a) (g b a)) (b : β)
    (as : Array α) : Agree I (as.foldlM f b) (as.foldlM g b) := by
  rw [← Array.foldlM_toList, ← Array.foldlM_toList]
  exact foldlM each b as.toList

theorem mapIdxM {f g : Nat → α → Eval β} (each : ∀ i a, Agree I (f i a) (g i a)) (as : Array α) :
    Agree I (as.mapIdxM f) (as.mapIdxM g) := by
  obtain ⟨as⟩ := as
  rw [List.mapIdxM_toArray, List.mapIdxM_toArray]
  have go (as : List α) (done : Array β) :
      Agree I (List.mapIdxM.go f as done) (List.mapIdxM.go g as done) := by
    induction as generalizing done with
    | nil => exact pure _
    | cons a as ih => exact (each _ a).bind fun b => ih _
  exact (go as #[]).bind fun bs => pure bs.toArray

end Agree

end Eval

/-- Nothing but containers, attributes and exceptions is different, and some output was added. -/
structure Machine.Untouched (m m' : Machine) : Prop where
  functions : m'.heap.functions = m.heap.functions
  scopes : m'.heap.scopes = m.heap.scopes
  globals : m'.globals = m.globals
  builtins : m'.builtins = m.builtins
  features : m'.features = m.features
  depth : m'.depth = m.depth
  output : ∃ more, m'.output = m.output ++ more

namespace Eval

/-- What kind a machine is of does not depend on its containers, its attributes, its exceptions and its
output. -/
def Stable (I : Machine → Prop) : Prop := ∀ m m' : Machine, m.Untouched m' → I m → I m'

namespace Stable

variable {I : Machine → Prop} (stable : Stable I)
include stable

theorem change {x : Eval Unit} (step : Machine → Machine) (run : ∀ m, x m = .ok () (step m))
    (untouched : ∀ m : Machine, m.Untouched (step m)) : Agree I x x :=
  AgreeWith.of_eq (fun m => ((), step m)) run (fun _ _ => trivial)
    fun m kind => stable m _ (untouched m) kind

theorem changeHeap {change : Heap → Heap} (functions : ∀ h, (change h).functions = h.functions)
    (scopes : ∀ h, (change h).scopes = h.scopes) :
    Agree I (Eval.changeHeap change) (Eval.changeHeap change) :=
  stable.change (fun m => { m with heap := change m.heap }) (fun _ => rfl) fun m =>
    ⟨functions m.heap, scopes m.heap, rfl, rfl, rfl, rfl, "", String.append_empty.symm⟩

theorem write (text : String) : Agree I (Eval.write text) (Eval.write text) :=
  stable.change (fun m => { m with output := m.output ++ text }) (fun _ => rfl)
    fun _ => ⟨rfl, rfl, rfl, rfl, rfl, rfl, text, rfl⟩

/-- A new object comes behind the others of its kind. -/
theorem newObject {α : Type} {size : Heap → Nat} {change : Nat → Heap → Heap} {made : Nat → α}
    (functions : ∀ i h, (change i h).functions = h.functions)
    (scopes : ∀ i h, (change i h).scopes = h.scopes) :
    Agree I (do let i ← Eval.ask size; Eval.changeHeap (change i); return made i)
      (do let i ← Eval.ask size; Eval.changeHeap (change i); return made i) :=
  (Agree.ask size).bind fun i => (stable.changeHeap (functions i) (scopes i)).bind fun _ =>
    Agree.pure (made i)

theorem newList (items : Array Value) : Agree I (Eval.newList items) (Eval.newList items) :=
  stable.newObject (fun _ _ => rfl) fun _ _ => rfl

theorem newTuple (items : Array Value) : Agree I (Eval.newTuple items) (Eval.newTuple items) :=
  stable.newObject (fun _ _ => rfl) fun _ _ => rfl

theorem newDict (entries : Array (Value × Value)) :
    Agree I (Eval.newDict entries) (Eval.newDict entries) :=
  stable.newObject (fun _ _ => rfl) fun _ _ => rfl

theorem newClass (c : ClassObject) : Agree I (Eval.newClass c) (Eval.newClass c) :=
  stable.newObject (fun _ _ => rfl) fun _ _ => rfl

theorem newInstance (c : Ref .cls) : Agree I (Eval.newInstance c) (Eval.newInstance c) :=
  stable.newObject (fun _ _ => rfl) fun _ _ => rfl

theorem newException (kind : ExceptionKind) (message : String) :
    Agree I (Eval.newException kind message) (Eval.newException kind message) :=
  stable.newObject (fun _ _ => rfl) fun _ _ => rfl

theorem changeList (r : Ref .list) (change : Array Value → Array Value) :
    Agree I (Eval.changeList r change) (Eval.changeList r change) :=
  stable.changeHeap (fun _ => rfl) fun _ => rfl

theorem setDict (r : Ref .dict) (entries : Array (Value × Value)) :
    Agree I (Eval.setDict r entries) (Eval.setDict r entries) :=
  stable.changeHeap (fun _ => rfl) fun _ => rfl

theorem changeDict (r : Ref .dict) (change : Array (Value × Value) → Array (Value × Value)) :
    Agree I (Eval.changeDict r change) (Eval.changeDict r change) :=
  stable.changeHeap (fun _ => rfl) fun _ => rfl

theorem changeClass (r : Ref .cls) (change : Bindings → Bindings) :
    Agree I (Eval.changeClass r change) (Eval.changeClass r change) :=
  stable.changeHeap (fun _ => rfl) fun _ => rfl

theorem changeInstance (r : Ref .inst) (change : Bindings → Bindings) :
    Agree I (Eval.changeInstance r change) (Eval.changeInstance r change) :=
  stable.changeHeap (fun _ => rfl) fun _ => rfl

end Stable

namespace Agree

variable {I : Machine → Prop}

@[simp] theorem equals (a b : Value) : Agree I (Eval.equals a b) (Eval.equals a b) :=
  (ask _).bind fun answer => ofDepth answer

@[simp] theorem checkHashable (v : Value) : Agree I (Eval.checkHashable v) (Eval.checkHashable v) :=
  (ask _).bind fun answer => by cases answer <;> simp

@[simp] theorem order (a b : Value) : Agree I (Eval.order a b) (Eval.order a b) :=
  (ask _).bind fun answer => by cases answer <;> simp

@[simp] theorem items (v : Value) : Agree I (Eval.items v) (Eval.items v) := by
  unfold Eval.items
  split
  · exact ask _
  · exact ask _
  · exact pure _
  · exact (ask _).bind fun entries => pure _
  · exact fail _

end Agree

end Eval

end Console
