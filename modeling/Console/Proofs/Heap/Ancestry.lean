import Mathlib.Logic.Function.Iterate
import Console.Proofs.Attributes

/-!
# Searches that end

Bases come before the classes that have them, and a scope after the one it hangs below. A recursion that
goes up from an object is therefore over after as many calls as the object has a place, though none of
its calls counts them. Each such recursion is given by one call of it, which is told what the deeper
calls answer.
-/

namespace Console

open Relation

section

variable {α β : Type} {place : α → Nat} {body : (α → β) → α → β}

/-- Where each call asks only for smaller places, as many calls as there are places above the first one
answer alike whatever the calls below them would answer. -/
theorem iterate_eq_of_place_lt
    (down : ∀ f g a, (∀ b, place b < place a → f b = g b) → body f a = body g a)
    (f g : α → β) {steps steps' : Nat} (a : α) (enough : place a < steps)
    (enough' : place a < steps') : body^[steps] f a = body^[steps'] g a := by
  induction steps generalizing steps' a with
  | zero => cases enough
  | succ steps ih =>
    cases steps' with
    | zero => cases enough'
    | succ steps' =>
      rw [Function.iterate_succ_apply', Function.iterate_succ_apply']
      refine down _ _ a fun b before => ?_
      exact ih b (by omega) (by omega)

end

namespace Heap

variable {h : Heap} {name : String} {r target : Ref .cls}

/-- The first binding of a name in a class or, as deeper calls find it, in a base. -/
def findCall (h : Heap) (name : String) (deeper : Ref .cls → Option Value) (r : Ref .cls) :
    Option Value :=
  match (h.cls r).attrs.get? name with
  | some v => some v
  | none => (h.cls r).bases.findSome? deeper

/-- Whether a class is the target or a deeper call reaches it from a base. -/
def deriveCall (h : Heap) (target : Ref .cls) (deeper : Ref .cls → Bool) (r : Ref .cls) : Bool :=
  r = target || (h.cls r).bases.any deeper

/-- The names bound in a class and those that deeper calls collect from its bases. -/
def collectCall (h : Heap) (deeper : Ref .cls → List String) (r : Ref .cls) : List String :=
  (h.cls r).attrs.names ++ (h.cls r).bases.flatMap deeper

/-- The binding of a name in a scope or, as deeper calls find it, in the one above. -/
def boundCall (h : Heap) (name : String) (deeper : Ref .scope → Option Value) (r : Ref .scope) :
    Option Value :=
  match (h.scope r).vars.get? name with
  | some v => some v
  | none => (h.scope r).parent.bind deeper

theorem findInClass?_eq_iterate (name : String) (steps : Nat) :
    h.findInClass? name steps = (h.findCall name)^[steps] fun _ => none := by
  induction steps with
  | zero => rfl
  | succ steps ih =>
    funext r
    rw [Function.iterate_succ_apply', ← ih]
    rfl

theorem reachesClass_eq_iterate (target : Ref .cls) (steps : Nat) :
    h.reachesClass target steps = (h.deriveCall target)^[steps] fun _ => false := by
  induction steps with
  | zero => rfl
  | succ steps ih =>
    funext r
    rw [Function.iterate_succ_apply', ← ih]
    rfl

theorem collectNames_eq_iterate (steps : Nat) :
    h.collectNames steps = h.collectCall^[steps] fun _ => [] := by
  induction steps with
  | zero => rfl
  | succ steps ih =>
    funext r
    rw [Function.iterate_succ_apply', ← ih]
    rfl

theorem findInScope?_eq_iterate (name : String) (steps : Nat) :
    h.findInScope? name steps = (h.boundCall name)^[steps] fun _ => none := by
  induction steps with
  | zero => rfl
  | succ steps ih =>
    funext r
    rw [Function.iterate_succ_apply', ← ih]
    rfl

namespace Sound

variable (sound : h.Sound)
include sound

theorem parent_before {r parent : Ref .scope} (mem : parent ∈ (h.scope r).parent) :
    parent.index < r.index := by
  unfold Heap.scope at mem
  cases found : h.scopes[r.index]? with
  | none =>
    rw [found] at mem
    cases mem
  | some s =>
    rw [found] at mem
    exact (sound .scope r s found).before parent mem

/-- What a call on a class asks of its bases. -/
theorem map_bases_congr {β : Type} {f g : Ref .cls → β} {r : Ref .cls}
    (same : ∀ base, base.index < r.index → f base = g base) :
    (h.cls r).bases.map f = (h.cls r).bases.map g :=
  List.map_congr_left fun _ mem => same _ (sound.base_before mem)

theorem findCall_ends (name : String) (deeper : Ref .cls → Option Value) (r : Ref .cls) {steps : Nat}
    (enough : r.index < steps) : (h.findCall name)^[steps] deeper r = h.classAttr? r name := by
  have asks (f : Ref .cls → Option Value) (r : Ref .cls) :
      (h.cls r).bases.findSome? f = ((h.cls r).bases.map f).findSome? id := by
    rw [List.findSome?_map]
    rfl
  rw [classAttr?, findInClass?_eq_iterate]
  refine iterate_eq_of_place_lt (fun f g r same => ?_) _ _ r enough (Nat.lt_succ_self _)
  rw [findCall, findCall, asks, asks, sound.map_bases_congr same]

theorem deriveCall_ends (target : Ref .cls) (deeper : Ref .cls → Bool) (r : Ref .cls) {steps : Nat}
    (enough : r.index < steps) : (h.deriveCall target)^[steps] deeper r = h.derivesFrom r target := by
  have asks (f : Ref .cls → Bool) (r : Ref .cls) :
      (h.cls r).bases.any f = ((h.cls r).bases.map f).any id := by
    rw [List.any_map]
    rfl
  rw [derivesFrom, reachesClass_eq_iterate]
  refine iterate_eq_of_place_lt (fun f g r same => ?_) _ _ r enough (Nat.lt_succ_self _)
  rw [deriveCall, deriveCall, asks, asks, sound.map_bases_congr same]

theorem collectCall_ends (deeper : Ref .cls → List String) (r : Ref .cls) {steps : Nat}
    (enough : r.index < steps) : h.collectCall^[steps] deeper r = h.classNames r := by
  rw [classNames, collectNames_eq_iterate]
  refine iterate_eq_of_place_lt (fun f g r same => ?_) _ _ r enough (Nat.lt_succ_self _)
  rw [collectCall, collectCall, List.flatMap_def, List.flatMap_def, sound.map_bases_congr same]

theorem boundCall_ends (name : String) (deeper : Ref .scope → Option Value) (r : Ref .scope)
    {steps : Nat} (enough : r.index < steps) :
    (h.boundCall name)^[steps] deeper r = h.boundIn? r name := by
  rw [boundIn?, findInScope?_eq_iterate]
  refine iterate_eq_of_place_lt (fun f g r same => ?_) _ _ r enough (Nat.lt_succ_self _)
  have parent : (h.scope r).parent.bind f = (h.scope r).parent.bind g :=
    Option.bind_congr fun _ mem => same _ (sound.parent_before mem)
  rw [boundCall, boundCall, parent]

end Sound

theorem inherits_of_reached (steps : Nat) (r : Ref .cls) (reached : h.reachesClass target steps r = true) :
    h.Inherits r target := by
  induction steps generalizing r with
  | zero => cases reached
  | succ steps ih =>
    simp only [reachesClass, Bool.or_eq_true, decide_eq_true_eq, List.any_eq_true] at reached
    obtain rfl | ⟨base, mem, reached⟩ := reached
    · exact .refl
    · exact .head mem (ih base reached)

theorem reached_of_inherits (sound : h.Sound) (inherits : h.Inherits r target) (steps : Nat)
    (enough : r.index < steps) : h.reachesClass target steps r = true := by
  induction inherits using ReflTransGen.head_induction_on generalizing steps with
  | refl =>
    cases steps with
    | zero => cases enough
    | succ steps => simp [reachesClass]
  | head first _ ih =>
    cases steps with
    | zero => cases enough
    | succ steps =>
      have before := sound.base_before first
      rw [reachesClass, Bool.or_eq_true, List.any_eq_true]
      exact .inr ⟨_, first, ih steps (by omega)⟩

theorem derivesFrom_iff (sound : h.Sound) : h.derivesFrom r target = true ↔ h.Inherits r target :=
  ⟨inherits_of_reached _ r, fun inherits => reached_of_inherits sound inherits _ (Nat.lt_succ_self _)⟩

end Heap

namespace Builtin

variable {m : Machine}

/-- Classes and scopes are built on what was there before them, so the searches through bases and through
the scopes above, none of which counts its calls, come to an end: from an object on, as many calls as
there are up to its place leave none open, and their answer is the one that is used. An instance is said
to be one of a class if and only if the bases lead from its class to that one. -/
theorem searches_through_bases_and_scopes_end (underway : m.Underway) :
    (∀ r, ∀ base ∈ (m.heap.cls r).bases, base.index < r.index) ∧
    (∀ r, ∀ parent ∈ (m.heap.scope r).parent, parent.index < r.index) ∧
    (∀ name deeper r steps, r.index < steps →
      (m.heap.findCall name)^[steps] deeper r = m.heap.classAttr? r name) ∧
    (∀ target deeper r steps, r.index < steps →
      (m.heap.deriveCall target)^[steps] deeper r = m.heap.derivesFrom r target) ∧
    (∀ deeper r steps, r.index < steps →
      m.heap.collectCall^[steps] deeper r = m.heap.classNames r) ∧
    (∀ name deeper r steps, r.index < steps →
      (m.heap.boundCall name)^[steps] deeper r = m.heap.boundIn? r name) ∧
    ∀ caller r c, ∃ b, call caller .isinstance ⟨[.instance r, .cls c], []⟩ m = .ok (.bool b) m ∧
      (b = true ↔ m.heap.Inherits (m.heap.inst r).cls c) := by
  have sound := underway.sound.heap
  refine ⟨?_, ?_, ?_, ?_, ?_, ?_, ?_⟩
  · exact fun r base mem => sound.base_before mem
  · exact fun r parent mem => sound.parent_before mem
  · exact fun name deeper r steps enough => sound.findCall_ends name deeper r enough
  · exact fun target deeper r steps enough => sound.deriveCall_ends target deeper r enough
  · exact fun deeper r steps enough => sound.collectCall_ends deeper r enough
  · exact fun name deeper r steps enough => sound.boundCall_ends name deeper r enough
  · intro caller r c
    exact ⟨m.heap.derivesFrom (m.heap.inst r).cls c, rfl, Heap.derivesFrom_iff sound⟩

/-- Three classes, the second with the first as its base, and an instance of the second. -/
def family : Statement :=
  .ifElse 1 (.int 1) [
    .classBody 2 "A" [] [.simple 3 .pass],
    .classBody 4 "B" [.name "A"] [.simple 5 .pass],
    .classBody 6 "C" [] [.simple 7 .pass],
    .simple 8 (.assign [.name "b"] (.call (.name "B") [] []))] []

/-- A function that binds a name and calls another one inside it. -/
def nest : Statement :=
  .ifElse 1 (.int 1) [
    .function 2 "outer" [] [
      .simple 3 (.assign [.name "x"] (.int 5)),
      .function 4 "inner" [] [.simple 5 .pass],
      .simple 6 (.expr (.call (.name "inner") [] []))],
    .simple 7 (.expr (.call (.name "outer") [] []))] []

/-- An instance is one of the base of its class and none of another class; what a function binds is found
from the scope of one inside it, in two calls. -/
theorem family_and_nest_are_searched : ∃ m m' : Machine,
    m = (Evaluator.exec 8 (.module false) family).left .fresh ∧ m.Underway ∧
    (m.heap.cls ⟨1⟩).bases = [⟨0⟩] ∧
    m.heap.Inherits (m.heap.inst ⟨0⟩).cls ⟨0⟩ ∧ ¬m.heap.Inherits (m.heap.inst ⟨0⟩).cls ⟨2⟩ ∧
    m' = (Evaluator.exec 8 (.module false) nest).left .fresh ∧ m'.Underway ∧
    (m'.heap.scope ⟨1⟩).parent = some ⟨0⟩ ∧
    (m'.heap.boundCall "x")^[2] (fun _ => none) ⟨1⟩ = some (.int 5) := by
  obtain ⟨m, made⟩ : ∃ m, m = (Evaluator.exec 8 (.module false) family).left .fresh := ⟨_, rfl⟩
  obtain ⟨m', made'⟩ : ∃ m, m = (Evaluator.exec 8 (.module false) nest).left .fresh := ⟨_, rfl⟩
  have underway : m.Underway := made ▸ .executed _ _ trivial (.between .fresh)
  have underway' : m'.Underway := made' ▸ .executed _ _ trivial (.between .fresh)
  obtain ⟨-, -, -, -, -, -, isinstance⟩ := searches_through_bases_and_scopes_end underway
  obtain ⟨-, -, -, -, -, bound, -⟩ := searches_through_bases_and_scopes_end underway'
  have told {c : Ref .cls} {b : Bool} (answer : call ⟨Evaluator.call 8, 8⟩ .isinstance
      ⟨[.instance ⟨0⟩, .cls c], []⟩ m = .ok (.bool b) m) :
      b = true ↔ m.heap.Inherits (m.heap.inst ⟨0⟩).cls c := by
    obtain ⟨b', run, iff⟩ := isinstance ⟨Evaluator.call 8, 8⟩ ⟨0⟩ c
    obtain rfl : b' = b := by simpa using run.symm.trans answer
    exact iff
  have base := told (c := ⟨0⟩) (b := true) (made ▸ rfl)
  have other := told (c := ⟨2⟩) (b := false) (made ▸ rfl)
  have x : m'.heap.boundIn? ⟨1⟩ "x" = some (.int 5) := made' ▸ rfl
  refine ⟨m, m', made, underway, made ▸ rfl, base.1 rfl, fun inherits => ?_, made', underway',
    made' ▸ rfl, ?_⟩
  · exact nomatch other.2 inherits
  · rw [bound "x" _ ⟨1⟩ 2 Nat.one_lt_two, x]

end Builtin

end Console
