import Console.Operators
import Console.Proofs.Evaluator.Agreement
import Console.Proofs.Printing

/-!
# Attributes, texts, items and operators

What the operations on values do depends on the evaluator only through the calls that they make, and
leaves functions, scopes and names alone.
-/

namespace Console

namespace Eval

variable {I : Machine → Prop} (stable : Stable I) {caller caller' : Caller}

/-- Two ways to call values that agree. -/
structure Callers (I : Machine → Prop) (caller caller' : Caller) : Prop where
  call : ∀ v args, Agree I (caller.call v args) (caller'.call v args)
  depth : caller.depth = caller'.depth

@[simp] theorem Agree.noAttribute {α : Type} (object : Value) (name : String) :
    Agree (α := α) I (Eval.noAttribute object name) (Eval.noAttribute object name) :=
  (Agree.ask _).bind fun _ => Agree.fail _

section

include stable

theorem Stable.attr? (object : Value) (name : String) :
    Agree I (Eval.attr? object name) (Eval.attr? object name) := by
  unfold Eval.attr?
  split
  · exact Agree.ask _
  · split
    · exact (Agree.ask _).bind fun _ => Agree.pure _
    · exact Agree.ask _
  · split
    · exact (Agree.ask _).bind fun _ => Agree.pure _
    · exact Agree.pure _
  · refine (Agree.ask _).bind fun e => ?_
    split
    · exact Agree.pure _
    · split
      · exact (stable.newTuple _).bind fun _ => Agree.pure _
      · exact Agree.pure _
  · exact Agree.pure _

theorem Stable.getAttr (object : Value) (name : String) :
    Agree I (Eval.getAttr object name) (Eval.getAttr object name) :=
  (stable.attr? object name).bind fun found => by cases found <;> simp

theorem Stable.setAttr (object : Value) (name : String) (v : Value) :
    Agree I (Eval.setAttr object name v) (Eval.setAttr object name v) := by
  unfold Eval.setAttr
  split
  · exact stable.changeInstance _ _
  · exact stable.changeClass _ _
  · exact Agree.fail _

theorem Stable.deleteAttr (object : Value) (name : String) :
    Agree I (Eval.deleteAttr object name) (Eval.deleteAttr object name) := by
  unfold Eval.deleteAttr
  split
  · refine (Agree.ask _).bind fun found => ?_
    split
    · exact stable.changeInstance _ _
    · exact Agree.noAttribute _ _
  · refine (Agree.ask _).bind fun found => ?_
    split
    · exact stable.changeClass _ _
    · exact Agree.noAttribute _ _
  · exact Agree.noAttribute _ _

variable (callers : Callers I caller caller')
include callers

theorem Callers.callForText (object : Value) (method : String) :
    Agree I (Eval.callForText caller object method) (Eval.callForText caller' object method) := by
  refine (stable.getAttr object method).bind fun f => (callers.call f _).bind fun v => ?_
  split
  · exact Agree.pure _
  · exact Agree.fail _

theorem Callers.reprWithin (depth : Nat) (around : List Container) (v : Value) :
    Agree I (Eval.reprWithin caller depth around v) (Eval.reprWithin caller' depth around v) := by
  induction depth generalizing around v with
  | zero => exact Agree.exhausted
  | succ depth ih =>
    unfold Eval.reprWithin
    split
    · split
      · exact Agree.pure _
      · exact (Agree.ask _).bind fun items => (Agree.mapM (ih _) _).bind fun _ => Agree.pure _
    · exact (Agree.ask _).bind fun items => (Agree.mapM (ih _) _).bind fun _ => Agree.pure _
    · split
      · exact Agree.pure _
      · refine (Agree.ask _).bind fun entries => (Agree.mapM (fun e => ?_) _).bind fun _ =>
          Agree.pure _
        refine (ih _ e.1).attempt.bind fun key => (ih _ e.2).attempt.bind fun value => ?_
        exact (Agree.ofExcept key).bind fun _ => (Agree.ofExcept value).bind fun _ => Agree.pure _
    · refine (Agree.ask _).bind fun written => ?_
      split
      · exact callers.callForText stable _ _
      · exact Agree.ask _
    · exact Agree.ask _

theorem Callers.repr (v : Value) : Agree I (Eval.repr caller v) (Eval.repr caller' v) := by
  rw [Eval.repr_eq, Eval.repr_eq, callers.depth]
  exact (Agree.ask _).bind fun depth => callers.reprWithin stable depth [] v

theorem Callers.str (v : Value) : Agree I (Eval.str caller v) (Eval.str caller' v) := by
  unfold Eval.str
  split
  · exact Agree.pure _
  · exact (Agree.ask _).bind fun _ => Agree.pure _
  · refine (Agree.ask _).bind fun written => ?_
    split
    · exact callers.callForText stable _ _
    · exact callers.repr stable _
  · exact callers.repr stable _

theorem Callers.keyMissing {α : Type} (key : Value) :
    Agree (α := α) I (Eval.keyMissing caller key) (Eval.keyMissing caller' key) :=
  (callers.repr stable key).attempt.bind fun text => by cases text <;> simp

end

@[simp] theorem Agree.lookup? (r : Ref .dict) (key : Value) :
    Agree I (Eval.lookup? r key) (Eval.lookup? r key) :=
  (Agree.checkHashable key).bind fun _ => (Agree.ask _).bind fun answer => Agree.ofDepth answer

@[simp] theorem Agree.placeOfKey? (r : Ref .dict) (key : Value) :
    Agree I (Eval.placeOfKey? r key) (Eval.placeOfKey? r key) :=
  (Agree.checkHashable key).bind fun _ => (Agree.ask _).bind fun answer => Agree.ofDepth answer

@[simp] theorem Agree.insertInto (entries : Array (Value × Value)) (key v : Value) :
    Agree I (Eval.insertInto entries key v) (Eval.insertInto entries key v) :=
  (Agree.ask _).bind fun answer => Agree.ofDepth answer

@[simp] theorem Agree.contains (container item : Value) :
    Agree I (Eval.contains container item) (Eval.contains container item) := by
  unfold Eval.contains
  split
  · exact Agree.pure _
  · exact Agree.fail _
  · exact (Agree.placeOfKey? _ _).bind fun _ => Agree.pure _
  · exact (Agree.items _).bind fun _ => (Agree.ask _).bind fun answer => Agree.ofDepth answer

include stable

theorem Callers.getItem (callers : Callers I caller caller') (object index : Value) :
    Agree I (Eval.getItem caller object index) (Eval.getItem caller' object index) := by
  unfold Eval.getItem
  split
  · exact (Agree.ask _).bind fun _ => (Agree.ofFault _).bind fun _ => Agree.pure _
  · exact (Agree.ask _).bind fun _ => (Agree.ofFault _).bind fun _ => Agree.pure _
  · exact (Agree.ofFault _).bind fun _ => Agree.pure _
  · refine (Agree.lookup? _ _).bind fun found => ?_
    cases found with
    | some v => exact Agree.pure v
    | none => exact callers.keyMissing stable index
  · exact Agree.fail _

theorem Stable.setItem (object index v : Value) :
    Agree I (Eval.setItem object index v) (Eval.setItem object index v) := by
  unfold Eval.setItem
  split
  · exact (Agree.ask _).bind fun _ => (Agree.ofFault _).bind fun _ => stable.changeList _ _
  · exact (Agree.checkHashable _).bind fun _ => (Agree.ask _).bind fun _ =>
      (Agree.insertInto _ _ _).bind fun _ => stable.setDict _ _
  · exact Agree.fail _

theorem Callers.deleteItem (callers : Callers I caller caller') (object index : Value) :
    Agree I (Eval.deleteItem caller object index) (Eval.deleteItem caller' object index) := by
  unfold Eval.deleteItem
  split
  · exact (Agree.ask _).bind fun _ => (Agree.ofFault _).bind fun _ => stable.changeList _ _
  · refine (Agree.placeOfKey? _ _).bind fun found => ?_
    cases found with
    | some i => exact stable.changeDict _ _
    | none => exact callers.keyMissing stable index
  · exact Agree.fail _

theorem Callers.percentConvert (callers : Callers I caller caller') (d : Format.Percent.Directive)
    (v : Value) :
    Agree I (Format.Percent.convert caller d v) (Format.Percent.convert caller' d v) := by
  unfold Format.Percent.convert
  split
  · exact (callers.str stable v).bind fun _ => Agree.pure _
  · exact (callers.repr stable v).bind fun _ => Agree.pure _
  · exact (Agree.ofFault _).bind fun _ => Agree.pure _
  · exact (Agree.ofFault _).bind fun _ => Agree.pure _
  · exact (Agree.ofFault _).bind fun _ => Agree.pure _
  · exact (Agree.ofFault _).bind fun _ => Agree.pure _
  · exact Agree.fail _

theorem Callers.percentFill (callers : Callers I caller caller') (out : List Char)
    (pieces : List Format.Percent.Piece) (values : List Value) :
    Agree I (Format.Percent.fill caller out pieces values)
      (Format.Percent.fill caller' out pieces values) := by
  induction pieces generalizing out values with
  | nil => cases values <;> simp [Format.Percent.fill]
  | cons piece pieces ih =>
    cases piece with
    | plain c => simpa only [Format.Percent.fill] using ih _ values
    | broken => cases values <;> simp [Format.Percent.fill]
    | directive d =>
      cases values with
      | nil => simp [Format.Percent.fill]
      | cons v values =>
        simp only [Format.Percent.fill]
        exact (callers.percentConvert stable d v).bind fun text => ih _ values

theorem Callers.percentFormat (callers : Callers I caller caller') (text : String) (v : Value) :
    Agree I (Format.Percent.format caller text v) (Format.Percent.format caller' text v) := by
  have spread : Agree I (Format.Percent.spread v) (Format.Percent.spread v) := by
    unfold Format.Percent.spread
    split
    · exact (Agree.ask _).bind fun _ => Agree.pure _
    · exact Agree.pure _
  exact spread.bind fun values => (callers.percentFill stable _ _ values).bind fun _ => Agree.pure _

omit stable in
@[simp] theorem Agree.isTrue (v : Value) : Agree I (Eval.isTrue v) (Eval.isTrue v) := Agree.ask _

omit stable in
@[simp] theorem Agree.unary (op : UnaryOp) (v : Value) :
    Agree I (Eval.unary op v) (Eval.unary op v) := by
  unfold Eval.unary
  split
  · exact (Agree.isTrue v).bind fun _ => Agree.pure _
  all_goals simp

omit stable in
theorem Agree.checkRepeat (size times : Nat) :
    Agree I (Eval.checkRepeat size times) (Eval.checkRepeat size times) := by
  unfold Eval.checkRepeat
  split <;> simp

theorem Stable.repeat? {left right : Value} {result : Eval Value}
    (product : Eval.multiply? left right = some result) : Agree I result result := by
  have repeated {v : Value} {count : Int64} (one : Eval.repeat? v count = some result) :
      Agree I result result := by
    unfold Eval.repeat? at one
    dsimp only at one
    split at one
    · cases one
      exact (Agree.checkRepeat _ _).bind fun _ => Agree.pure _
    · cases one
      exact (Agree.ask _).bind fun _ => (Agree.checkRepeat _ _).bind fun _ => stable.newList _
    · cases one
      exact (Agree.ask _).bind fun _ => (Agree.checkRepeat _ _).bind fun _ => stable.newTuple _
    · cases one
  unfold Eval.multiply? at product
  split at product
  · exact repeated product
  · exact repeated product
  · cases product

theorem Callers.binary (callers : Callers I caller caller') (op : BinaryOp) (left right : Value) :
    Agree I (Eval.binary caller op left right) (Eval.binary caller' op left right) := by
  unfold Eval.binary
  split
  · exact Agree.get.bind fun _ => Agree.ofFault _
  · split
    · exact Agree.pure _
    · exact (Agree.ask _).bind fun _ => stable.newList _
    · exact (Agree.ask _).bind fun _ => stable.newTuple _
    · cases product : Eval.multiply? left right with
      | none => exact Agree.fail _
      | some result => exact stable.repeat? product
    · exact (callers.percentFormat stable _ _).bind fun _ => Agree.pure _
    · exact Agree.fail _

theorem Callers.augment (callers : Callers I caller caller') (op : BinaryOp) (current v : Value) :
    Agree I (Eval.augment caller op current v) (Eval.augment caller' op current v) := by
  unfold Eval.augment
  split
  · exact (Agree.items v).bind fun _ => (stable.changeList _ _).bind fun _ => Agree.pure _
  · exact callers.binary stable op current v

omit stable in
@[simp] theorem Agree.compare (op : Comparison) (left right : Value) :
    Agree I (Eval.compare op left right) (Eval.compare op left right) := by
  unfold Eval.compare
  cases op with
  | eq => exact Agree.equals _ _
  | is => exact Agree.pure _
  | isNot => exact Agree.pure _
  | isIn => exact Agree.contains _ _
  | ne => exact (Agree.equals _ _).bind fun _ => Agree.pure _
  | notIn => exact (Agree.contains _ _).bind fun _ => Agree.pure _
  | _ => exact (Agree.order _ _).bind fun _ => Agree.pure _

end Eval

end Console
